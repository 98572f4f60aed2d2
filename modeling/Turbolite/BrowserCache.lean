import Turbolite.Keys
import Turbolite.Lib.Lru
import Turbolite.Lib.Runs
import Mathlib.Data.List.MinMax
import Mathlib.Data.List.Pairwise

/-!
# Turbolite.BrowserCache

The page cache of the browser reader (`cache.ts`). A fetch brings all pages of a group, and every one of
them may evict the least recently used page, also one of the same group. The files of OPFS, the manifest
and the fetcher are the outside of a call. The order of use, the evictions and what became of the fetches
are kept on the side; the abstract cache is that of `Lib.Lru`.

`cache_answers` says over which runs a fetched page is always returned.
-/

namespace Turbolite.BrowserCache

open Runs

/-! ### Maps and numbers -/

/-- `Map.set`, in insertion order. -/
def mapSet {β : Type} (k : Nat) (v : β) (m : List (Nat × β)) : List (Nat × β) :=
  if k ∈ Lru.keys m then m.map fun e => if e.1 = k then (k, v) else e else m ++ [(k, v)]

/-- `Map.delete`. -/
def mapDelete {β : Type} (k : Nat) (m : List (Nat × β)) : List (Nat × β) := m.filter (·.1 ≠ k)

/-- `n + 1` as a double. -/
def increment (n : Nat) : Nat := if n < 2 ^ 53 then n + 1 else n

/-! ### State -/

/-- Why `getPageAsync` throws. -/
inductive GetError where
  | error (message : String)
  /-- the fetcher throws -/
  | fetch
  /-- a write to OPFS throws -/
  | write
  deriving DecidableEq, Repr

/-- A fetch that came back, and what the call returned. -/
structure Fetched where
  page : Nat
  pages : List (Nat × Bytes)
  result : Except GetError Bytes

/-- `PageCache`. -/
structure State where
  maxMemBytes : Nat
  opfsDir : Bool := false
  memCache : List (Nat × Bytes) := []
  memBytes : Int := 0
  accessGen : List (Nat × Nat) := []
  generation : Nat := 0
  hits : Nat := 0
  misses : Nat := 0
  /-- the pages in use, by their last use -/
  order : List Nat := []
  /-- every evicted page, with the order at that time -/
  evictions : List (Nat × List Nat) := []
  fetched : List Fetched := []

/-- What `fetchPagesForGroup` resolves to. -/
structure PageMap where
  entries : List (Nat × Bytes)
  nodup : (Lru.keys entries).Nodup

/-- What one call of `getPageAsync` meets. -/
structure Outside where
  /-- `readOpfs` -/
  opfsPage : Option Bytes
  /-- the group of the page in the manifest -/
  location : Option Nat
  /-- `none` when the fetcher throws -/
  pages : Option PageMap
  /-- whether all writes to OPFS resolve -/
  written : Bool

/-- The calls of the page cache. -/
inductive Event where
  | getPage (pageNum : Nat)
  | getPageAsync (pageNum : Nat) (o : Outside)
  | putPages (pages : List (Nat × Bytes))
  | clear

namespace State

variable (s : State)

/-! ### The cache -/

/-- `touchLru`. -/
def touchLru (pageNum : Nat) : State :=
  { s with
    accessGen := mapSet pageNum (increment s.generation) s.accessGen
    generation := increment s.generation
    order := s.order.filter (· ≠ pageNum) ++ [pageNum] }

/-- The entry with the least generation; the first of them. -/
def oldest (m : List (Nat × Nat)) : Option (Nat × Nat) := m.argmin (·.2)

/-- `evictLru`. -/
def evictLru : State :=
  match oldest s.accessGen with
  | none => s
  | some (victim, _) =>
    { s with
      memBytes := s.memBytes - ((s.memCache.lookup victim).map List.length).getD 0
      memCache := mapDelete victim s.memCache
      accessGen := mapDelete victim s.accessGen
      order := s.order.filter (· ≠ victim)
      evictions := s.evictions ++ [(victim, s.order)] }

/-- The eviction loop of `putMem`; `none` when it goes on with all generations gone. -/
def evictLoop (need : Nat) : Nat → State → Option State
  | fuel, s =>
    if s.maxMemBytes < s.memBytes + need ∧ 0 < s.memCache.length then
      match fuel with
      | 0 => none
      | fuel + 1 => evictLoop need fuel s.evictLru
    else some s

/-- `putMem`. -/
def putMem (pageNum : Nat) (data : Bytes) : Option State :=
  if pageNum ∈ Lru.keys s.memCache then some (s.touchLru pageNum)
  else do
    let s ← evictLoop data.length s.accessGen.length s
    some ({ s with
      memCache := mapSet pageNum data s.memCache
      memBytes := s.memBytes + data.length }.touchLru pageNum)

/-- The loop over the pages of `putPages` and of a fetch. -/
def putPages (pages : List (Nat × Bytes)) : Option State :=
  pages.foldlM (fun s e => s.putMem e.1 e.2) s

/-- `getPage`. -/
def getPage (pageNum : Nat) : Option Bytes × State :=
  match s.memCache.lookup pageNum with
  | some page => (some page, { s with hits := s.hits + 1 }.touchLru pageNum)
  | none => (none, s)

/-- The third part of `getPageAsync`, with the pages of the fetch. -/
def takeFetched (pageNum gid : Nat) (o : Outside) (pages : List (Nat × Bytes)) :
    Option (Except GetError Bytes × State) := do
  let s ← s.putPages pages
  let result : Except GetError Bytes :=
    if s.opfsDir = true ∧ pages ≠ [] ∧ o.written = false then .error .write
    else match s.memCache.lookup pageNum with
      | none => .error (.error s!"Page {pageNum} not in fetched group {gid}")
      | some data => .ok data
  some (result, { s with fetched := s.fetched ++ [⟨pageNum, pages, result⟩] })

/-- `getPageAsync`. -/
def getPageAsync (pageNum : Nat) (o : Outside) : Option (Except GetError Bytes × State) :=
  match s.getPage pageNum with
  | (some mem, s) => some (.ok mem, s)
  | (none, s) =>
    match (if s.opfsDir then o.opfsPage else none) with
    | some opfsPage => do
      let s ← { s with hits := s.hits + 1 }.putMem pageNum opfsPage
      some (.ok opfsPage, s)
    | none =>
      let s := { s with misses := s.misses + 1 }
      match o.location with
      | none => some (.error (.error s!"Page {pageNum} not found in manifest"), s)
      | some gid =>
        match o.pages with
        | none => some (.error .fetch, s)
        | some pages => s.takeFetched pageNum gid o pages.entries

/-- `clear`. -/
def clear : State :=
  { s with memCache := [], memBytes := 0, accessGen := [], generation := 0, order := [] }

end State

/-- One call after the other; `none` when a call does not end. -/
def step (s : State) : Event → Option State
  | .getPage pageNum => some (s.getPage pageNum).2
  | .getPageAsync pageNum o => (s.getPageAsync pageNum o).map (·.2)
  | .putPages pages => s.putPages pages
  | .clear => some s.clear


/-! ### What is promised -/

/-- The count of uses fits a double. -/
def Counted (s : State) : Event → Prop
  | .getPage _ => s.generation + 1 ≤ 2 ^ 53
  | .getPageAsync _ o =>
    s.generation + 1 + (o.pages.map fun m => m.entries.length).getD 0 ≤ 2 ^ 53
  | .putPages pages => s.generation + pages.length ≤ 2 ^ 53
  | .clear => True

/-- A fetched page has room beside the pages of its fetch that come after it, each counted with the size
it has in the fetch or in the cache, whichever is more; and what is written to OPFS gets written. -/
def HasRoom (s : State) : Event → Prop
  | .getPageAsync pageNum o => ∀ m, o.pages = some m →
    (s.opfsDir = true → o.written = true) ∧ ∀ pre data post, m.entries = pre ++ (pageNum, data) :: post →
      post = [] ∨ data.length + (post.map (Lru.weight List.length s.memCache)).sum ≤ s.maxMemBytes
  | _ => True

/-- Sizes and recency are those of the cached pages, and every evicted page was the one whose last use
was longest ago. -/
structure Accounted (s : State) : Prop where
  memBytes : s.memBytes = Lru.total List.length s.memCache
  nodup : (Lru.keys s.memCache).Nodup
  recency : (Lru.keys s.accessGen).Perm (Lru.keys s.memCache)
  order : s.order.Perm (Lru.keys s.memCache)
  evicted : ∀ e ∈ s.evictions, e.2.head? = some e.1

/-- A fetch that brings the page is answered with it. -/
def Answered (s : State) : Prop :=
  ∀ f ∈ s.fetched, ∀ data, (f.page, data) ∈ f.pages → f.result.toOption = some data

/-! ### The abstract cache -/

/-- The state holds the abstract cache: its entries, and generations that grow along them. -/
structure Refines (s : State) (l : List (Nat × Bytes)) : Prop where
  cache : s.memCache.Perm l
  nodup : (Lru.keys l).Nodup
  memBytes : s.memBytes = Lru.total List.length l
  order : s.order = Lru.keys l
  gens : ∃ g : Nat → Nat, s.accessGen.Perm (l.map fun e => (e.1, g e.1)) ∧
    l.Pairwise (fun a b => g a.1 < g b.1) ∧ ∀ e ∈ l, g e.1 ≤ s.generation
  evicted : ∀ e ∈ s.evictions, e.2.head? = some e.1

/-- What no access changes. -/
structure Same (s s' : State) : Prop where
  maxMemBytes : s'.maxMemBytes = s.maxMemBytes
  opfsDir : s'.opfsDir = s.opfsDir
  fetched : s'.fetched = s.fetched

theorem Same.trans {s s' s'' : State} (h : Same s s') (h' : Same s' s'') : Same s s'' :=
  ⟨h'.maxMemBytes.trans h.maxMemBytes, h'.opfsDir.trans h.opfsDir, h'.fetched.trans h.fetched⟩

section Refinement

variable {s : State} {l : List (Nat × Bytes)} {p : Nat}

theorem keys_perm {β : Type} {m m' : List (Nat × β)} (h : m.Perm m') :
    (Lru.keys m).Perm (Lru.keys m') := h.map _

theorem lookup_eq_some_iff {β : Type} {m : List (Nat × β)} (hnd : (Lru.keys m).Nodup) {k : Nat} {v : β} :
    m.lookup k = some v ↔ (k, v) ∈ m := by
  induction m with
  | nil => simp
  | cons e m ih =>
    obtain ⟨he, hnd'⟩ : e.1 ∉ Lru.keys m ∧ (Lru.keys m).Nodup := List.nodup_cons.mp hnd
    by_cases hk : k = e.1
    · subst hk
      rw [List.lookup_cons, List.mem_cons]
      simp only [beq_self_eq_true]
      constructor
      · intro hv
        exact .inl (by rw [← Option.some.inj hv])
      · rintro (hv | hv)
        · rw [← hv]
        · exact absurd (Lru.mem_keys.mpr ⟨v, hv⟩) he
    · have hb : (k == e.1) = false := by simpa using hk
      rw [List.lookup_cons, hb, List.mem_cons]
      constructor
      · intro hv
        exact .inr ((ih hnd').mp hv)
      · rintro (hv | hv)
        · exact absurd (congrArg Prod.fst hv) hk
        · exact (ih hnd').mpr hv

theorem lookup_eq_none_iff {β : Type} {m : List (Nat × β)} (hnd : (Lru.keys m).Nodup) {k : Nat} :
    m.lookup k = none ↔ k ∉ Lru.keys m := by
  rw [Lru.mem_keys, not_exists, Option.eq_none_iff_forall_ne_some]
  exact forall_congr' fun v => not_congr (lookup_eq_some_iff hnd)

theorem keys_filter {β : Type} (m : List (Nat × β)) (q : Nat → Bool) :
    Lru.keys (m.filter fun e => q e.1) = (Lru.keys m).filter q := by
  unfold Lru.keys
  rw [List.filter_map]
  rfl

theorem entriesOf_of_mem (hnd : (Lru.keys l).Nodup) (hp : p ∈ Lru.keys l) :
    Lru.keys (Lru.entriesOf p l) = [p] := by
  unfold Lru.entriesOf
  rw [keys_filter l fun k => decide (k = p)]
  have hcount : (Lru.keys l).filter (fun k => decide (k = p)) =
      List.replicate ((Lru.keys l).count p) p := by
    simp [List.filter_eq]
  rw [hcount, List.count_eq_one_of_mem hnd hp]
  rfl

theorem mapSet_perm_of_mem {m : List (Nat × Nat)} {l : List (Nat × Bytes)} {g : Nat → Nat} {n : Nat}
    (h : m.Perm (l.map fun e => (e.1, g e.1))) (hp : p ∈ Lru.keys l) :
    (mapSet p n m).Perm (l.map fun e => (e.1, Function.update g p n e.1)) := by
  have hm : p ∈ Lru.keys m := by
    rw [(keys_perm h).mem_iff]
    simpa [Lru.keys] using hp
  unfold mapSet
  rw [if_pos hm]
  refine (h.map _).trans (List.Perm.of_eq ?_)
  rw [List.map_map]
  refine List.map_congr_left fun e _ => ?_
  by_cases he : e.1 = p
  · subst he
    simp
  · simp [he]

theorem increment_of_lt {n : Nat} (h : n + 1 ≤ 2 ^ 53) : increment n = n + 1 :=
  if_pos (Nat.lt_of_succ_le h)

/-- A use of a cached page. -/
theorem Refines.touch (h : Refines s l) (hp : p ∈ Lru.keys l) (hgen : s.generation + 1 ≤ 2 ^ 53) :
    Refines (s.touchLru p) (Lru.use p l) := by
  obtain ⟨g, hperm, hsorted, hle⟩ := h.gens
  have huse := Lru.perm_use p l
  refine ⟨h.cache.trans huse.symm, ((keys_perm huse).nodup_iff).mpr h.nodup, ?_, ?_, ?_, h.evicted⟩
  · rw [Lru.total_perm huse]
    exact h.memBytes
  · change s.order.filter (· ≠ p) ++ [p] = _
    unfold Lru.use
    rw [Lru.keys_append, entriesOf_of_mem h.nodup hp, keys_filter l fun k => decide (k ≠ p), h.order]
  · refine ⟨Function.update g p (increment s.generation), ?_, ?_, ?_⟩
    · exact (mapSet_perm_of_mem hperm hp).trans (huse.symm.map _)
    · have hold : ∀ e ∈ l.filter (fun e => e.1 ≠ p), e.1 ≠ p ∧ e ∈ l := by
        intro e he
        rw [List.mem_filter, decide_eq_true_iff] at he
        exact ⟨he.2, he.1⟩
      have hnew : ∀ e ∈ Lru.entriesOf p l, e.1 = p := fun e he =>
        of_decide_eq_true (List.mem_filter.mp he).2
      unfold Lru.use
      refine List.pairwise_append.mpr ⟨?_, ?_, ?_⟩
      · refine (hsorted.sublist List.filter_sublist).imp_of_mem fun {a b} ha hb hab => ?_
        rw [Function.update_of_ne (hold a ha).1, Function.update_of_ne (hold b hb).1]
        exact hab
      · -- one entry only
        have hlen : (Lru.entriesOf p l).length = 1 := by
          have hk := congrArg List.length (entriesOf_of_mem h.nodup hp)
          simpa [Lru.keys] using hk
        obtain ⟨e, he⟩ := List.length_eq_one_iff.mp hlen
        rw [he]
        exact List.pairwise_singleton _ _
      · intro a ha b hb
        rw [Function.update_of_ne (hold a ha).1, hnew b hb, Function.update_self,
          increment_of_lt hgen]
        exact Nat.lt_succ_of_le (hle a (hold a ha).2)
    · intro e he
      change _ ≤ increment s.generation
      by_cases hep : e.1 = p
      · rw [hep, Function.update_self]
      · rw [Function.update_of_ne hep, increment_of_lt hgen]
        exact Nat.le_succ_of_le (hle e (huse.mem_iff.mp he))

/-- A new page. -/
theorem Refines.insert (h : Refines s l) {data : Bytes} (hp : p ∉ Lru.keys l)
    (hgen : s.generation + 1 ≤ 2 ^ 53) : Refines
      ({ s with memCache := mapSet p data s.memCache, memBytes := s.memBytes + data.length }.touchLru p)
      (l ++ [(p, data)]) := by
  obtain ⟨g, hperm, hsorted, hle⟩ := h.gens
  have hmem : p ∉ Lru.keys s.memCache := fun hk => hp ((keys_perm h.cache).mem_iff.mp hk)
  have hkeys : p ∉ Lru.keys s.accessGen := by
    intro hk
    have hk' := (keys_perm hperm).mem_iff.mp hk
    exact hp (by simpa [Lru.keys] using hk')
  have hne : ∀ e ∈ l, e.1 ≠ p := by
    rintro e he rfl
    exact hp (Lru.mem_keys.mpr ⟨e.2, he⟩)
  unfold State.touchLru mapSet
  rw [if_neg hmem, if_neg hkeys]
  refine ⟨h.cache.append_right _, ?_, ?_, ?_, ⟨Function.update g p (increment s.generation), ?_, ?_,
    ?_⟩, h.evicted⟩
  · rw [Lru.keys_append]
    refine h.nodup.append (List.nodup_singleton p) fun k hk hk' => ?_
    rw [List.mem_singleton.mp hk'] at hk
    exact hp hk
  · simp [h.memBytes]
  · have hkeep : s.order.filter (· ≠ p) = s.order := by
      rw [h.order, List.filter_eq_self]
      intro k hk
      have hkp : k ≠ p := by
        rintro rfl
        exact hp hk
      simpa using hkp
    change s.order.filter (· ≠ p) ++ [p] = _
    rw [hkeep, h.order, Lru.keys_append]
    rfl
  · rw [List.map_append]
    refine (hperm.trans (List.Perm.of_eq (List.map_congr_left fun e he => ?_))).append
      (List.Perm.of_eq ?_)
    · rw [Function.update_of_ne (hne e he)]
    · simp
  · refine List.pairwise_append.mpr ⟨?_, List.pairwise_singleton _ _, ?_⟩
    · refine hsorted.imp_of_mem fun {a b} ha hb hab => ?_
      rw [Function.update_of_ne (hne a ha), Function.update_of_ne (hne b hb)]
      exact hab
    · intro a ha b hb
      rw [List.mem_singleton.mp hb, Function.update_of_ne (hne a ha), Function.update_self,
        increment_of_lt hgen]
      exact Nat.lt_succ_of_le (hle a ha)
  · intro e he
    rcases List.mem_append.mp he with he | he
    · rw [Function.update_of_ne (hne e he), increment_of_lt hgen]
      exact Nat.le_succ_of_le (hle e he)
    · rw [List.mem_singleton.mp he, Function.update_self]

/-! ### Evictions -/

/-- The victim is the oldest entry. -/
theorem Refines.oldest {e : Nat × Bytes} (h : Refines s (e :: l)) :
    ∃ n, State.oldest s.accessGen = some (e.1, n) := by
  obtain ⟨g, hperm, hsorted, -⟩ := h.gens
  obtain ⟨hfirst, -⟩ := List.pairwise_cons.mp hsorted
  cases hv : State.oldest s.accessGen with
  | none =>
    have hlen := hperm.length_eq
    rw [List.argmin_eq_none.mp hv] at hlen
    cases hlen
  | some b =>
    have hmem := hperm.mem_iff.mp (List.argmin_mem hv)
    have hleast : b.2 ≤ g e.1 :=
      List.le_of_mem_argmin (hperm.mem_iff.mpr (List.mem_map.mpr ⟨e, List.mem_cons_self, rfl⟩)) hv
    obtain ⟨a, ha, rfl⟩ := List.mem_map.mp hmem
    rcases List.mem_cons.mp ha with rfl | ha
    · exact ⟨_, rfl⟩
    · exact absurd (hfirst a ha) (Nat.not_lt.mpr hleast)

theorem mapDelete_perm {β : Type} {m : List (Nat × β)} {m' : List (Nat × β)} {e : Nat × β}
    (h : m.Perm (e :: m')) (he : e.1 ∉ Lru.keys m') : (mapDelete e.1 m).Perm m' := by
  refine (h.filter _).trans (List.Perm.of_eq ?_)
  rw [List.filter_cons_of_neg (by simp), List.filter_eq_self]
  intro x hx
  have hne : x.1 ≠ e.1 := by
    intro hk
    exact he (hk ▸ Lru.mem_keys.mpr ⟨x.2, hx⟩)
  simpa using hne

/-- An eviction drops the oldest entry. -/
theorem Refines.evict {e : Nat × Bytes} (h : Refines s (e :: l)) :
    Refines s.evictLru l ∧ Same s s.evictLru ∧ s.evictLru.generation = s.generation ∧
      s.evictLru.accessGen.length + 1 = s.accessGen.length := by
  obtain ⟨n, hv⟩ := h.oldest
  obtain ⟨g, hperm, hsorted, hle⟩ := h.gens
  obtain ⟨he, hnd⟩ : e.1 ∉ Lru.keys l ∧ (Lru.keys l).Nodup := List.nodup_cons.mp h.nodup
  have hlookup : s.memCache.lookup e.1 = some e.2 :=
    (lookup_eq_some_iff (((keys_perm h.cache).nodup_iff).mpr h.nodup)).mpr
      (h.cache.mem_iff.mpr List.mem_cons_self)
  have hgen : (mapDelete e.1 s.accessGen).Perm (l.map fun e => (e.1, g e.1)) := by
    refine mapDelete_perm hperm ?_
    simpa [Lru.keys] using he
  unfold State.evictLru
  rw [hv]
  dsimp only
  refine ⟨⟨mapDelete_perm h.cache he, hnd, ?_, ?_, ⟨g, hgen, ?_, ?_⟩, ?_⟩, ⟨rfl, rfl, rfl⟩, rfl, ?_⟩
  · have hb := h.memBytes
    rw [Lru.total_cons] at hb
    simp only [hlookup, Option.map_some, Option.getD_some, hb]
    push_cast
    ring
  · rw [h.order]
    change (e.1 :: Lru.keys l).filter (· ≠ e.1) = Lru.keys l
    rw [List.filter_cons_of_neg (by simp), List.filter_eq_self]
    intro k hk
    have hne : k ≠ e.1 := by
      rintro rfl
      exact he hk
    simpa using hne
  · exact (List.pairwise_cons.mp hsorted).2
  · exact fun x hx => hle x (List.mem_cons_of_mem e hx)
  · intro x hx
    rcases List.mem_append.mp hx with hx | hx
    · exact h.evicted x hx
    · rw [List.mem_singleton.mp hx, h.order]
      rfl
  · have h1 := hgen.length_eq
    have h2 := hperm.length_eq
    rw [List.length_map] at h1 h2
    rw [h1, h2]
    rfl

/-- The loop ends with what `shrink` leaves. -/
theorem Refines.evictLoop (h : Refines s l) (need : Nat) {fuel : Nat}
    (hfuel : fuel = s.accessGen.length) : ∃ s', State.evictLoop need fuel s = some s' ∧
      Refines s' (Lru.shrink List.length s.maxMemBytes need l) ∧ Same s s' ∧
      s'.generation = s.generation := by
  induction l generalizing s fuel with
  | nil =>
    have hempty : s.memCache = [] := h.cache.eq_nil
    refine ⟨s, ?_, h, ⟨rfl, rfl, rfl⟩, rfl⟩
    unfold State.evictLoop
    rw [if_neg (by simp [hempty])]
  | cons e l ih =>
    have hlen : 0 < s.memCache.length := by
      rw [h.cache.length_eq]
      exact Nat.succ_pos _
    unfold Lru.shrink
    by_cases hfit : Lru.total List.length (e :: l) + need ≤ s.maxMemBytes
    · refine ⟨s, ?_, by rw [if_pos hfit]; exact h, ⟨rfl, rfl, rfl⟩, rfl⟩
      unfold State.evictLoop
      rw [if_neg]
      rw [h.memBytes]
      omega
    · obtain ⟨hev, hsame, hgen, hshort⟩ := h.evict
      have hcond : (s.maxMemBytes : Int) < s.memBytes + need ∧ 0 < s.memCache.length := by
        refine ⟨?_, hlen⟩
        rw [h.memBytes]
        omega
      obtain ⟨s', hloop, href, hsame', hgen'⟩ := ih hev rfl
      rw [if_neg hfit]
      refine ⟨s', ?_, hsame.maxMemBytes ▸ href, hsame.trans hsame', hgen'.trans hgen⟩
      unfold State.evictLoop
      rw [if_pos hcond, hfuel, ← hshort]
      exact hloop

/-- `putMem` is `put`, and it ends. -/
theorem Refines.putMem (h : Refines s l) (p : Nat) (data : Bytes) (hgen : s.generation + 1 ≤ 2 ^ 53) :
    ∃ s', s.putMem p data = some s' ∧
      Refines s' (Lru.put List.length s.maxMemBytes p data l) ∧ Same s s' ∧
      s'.generation = s.generation + 1 := by
  have hmem : p ∈ Lru.keys s.memCache ↔ p ∈ Lru.keys l := (keys_perm h.cache).mem_iff
  unfold State.putMem Lru.put
  by_cases hp : p ∈ Lru.keys l
  · rw [if_pos (hmem.mpr hp), if_pos hp]
    exact ⟨_, rfl, h.touch hp hgen, ⟨rfl, rfl, rfl⟩, increment_of_lt hgen⟩
  · rw [if_neg (fun hk => hp (hmem.mp hk)), if_neg hp]
    obtain ⟨s', hloop, href, hsame, hgen'⟩ := h.evictLoop data.length rfl
    rw [hloop]
    have hnot : p ∉ Lru.keys (Lru.shrink List.length s.maxMemBytes data.length l) := fun hk =>
      hp (((Lru.shrink_suffix _ l).sublist.map Prod.fst).subset hk)
    refine ⟨_, rfl, ?_, ⟨hsame.maxMemBytes, hsame.opfsDir, hsame.fetched⟩, ?_⟩
    · exact href.insert hnot (hgen'.symm ▸ hgen)
    · change increment s'.generation = _
      rw [increment_of_lt (hgen'.symm ▸ hgen), hgen']

/-! ### Calls -/

theorem Refines.putPages (h : Refines s l) (pages : List (Nat × Bytes))
    (hgen : s.generation + pages.length ≤ 2 ^ 53) : ∃ s', s.putPages pages = some s' ∧
      Refines s' (Lru.putAll List.length s.maxMemBytes pages l) ∧ Same s s' ∧
      s'.generation = s.generation + pages.length := by
  induction pages generalizing s l with
  | nil => exact ⟨s, rfl, h, ⟨rfl, rfl, rfl⟩, rfl⟩
  | cons e pages ih =>
    rw [List.length_cons] at hgen
    obtain ⟨s₁, hput, href, hsame, hgen₁⟩ := h.putMem e.1 e.2 (by omega)
    obtain ⟨s', hrest, href', hsame', hgen'⟩ := ih href (by omega)
    refine ⟨s', ?_, ?_, hsame.trans hsame', ?_⟩
    · unfold State.putPages at hrest ⊢
      rw [List.foldlM_cons, hput]
      exact hrest
    · rw [hsame.maxMemBytes] at href'
      exact href'
    · rw [hgen', hgen₁, List.length_cons]
      omega

theorem Refines.mem_keys (h : Refines s l) : p ∈ Lru.keys s.memCache ↔ p ∈ Lru.keys l :=
  (keys_perm h.cache).mem_iff

theorem Refines.nodup_memCache (h : Refines s l) : (Lru.keys s.memCache).Nodup :=
  (keys_perm h.cache).nodup_iff.mpr h.nodup

theorem Refines.lookup_iff (h : Refines s l) {data : Bytes} :
    s.memCache.lookup p = some data ↔ (p, data) ∈ l := by
  rw [lookup_eq_some_iff h.nodup_memCache, h.cache.mem_iff]

/-- The counters are no part of the abstract cache. -/
theorem Refines.count (h : Refines s l) (hits misses : Nat) :
    Refines { s with hits := hits, misses := misses } l :=
  ⟨h.cache, h.nodup, h.memBytes, h.order, h.gens, h.evicted⟩

/-- A page that is there is used; one that is not leaves the state alone. -/
theorem Refines.getPage (h : Refines s l) (p : Nat) (hgen : s.generation + 1 ≤ 2 ^ 53) :
    (s.getPage p = (none, s) ∧ p ∉ Lru.keys l) ∨
      ∃ data s', s.getPage p = (some data, s') ∧ Refines s' (Lru.use p l) ∧ Same s s' := by
  unfold State.getPage
  cases hlook : s.memCache.lookup p with
  | none =>
    refine .inl ⟨rfl, ?_⟩
    rw [← h.mem_keys]
    exact (lookup_eq_none_iff h.nodup_memCache).mp hlook
  | some data =>
    have hp : p ∈ Lru.keys l := Lru.mem_keys.mpr ⟨data, h.lookup_iff.mp hlook⟩
    exact .inr ⟨data, _, rfl, (h.count (s.hits + 1) s.misses).touch hp hgen, rfl, rfl, rfl⟩

/-- A call ends; a fetch that came back is logged with what the page looks like after it. -/
theorem Refines.takeFetched (h : Refines s l) (p gid : Nat) (o : Outside)
    (pages : List (Nat × Bytes)) (hgen : s.generation + pages.length ≤ 2 ^ 53) :
    ∃ r s', s.takeFetched p gid o pages = some (r, s') ∧
      Refines s' (Lru.putAll List.length s.maxMemBytes pages l) ∧
      s'.maxMemBytes = s.maxMemBytes ∧ s'.fetched = s.fetched ++ [⟨p, pages, r⟩] ∧
      ((s.opfsDir = true → o.written = true) → ∀ data,
        r.toOption = some data ↔ (p, data) ∈ Lru.putAll List.length s.maxMemBytes pages l) := by
  obtain ⟨s', hput, href, hsame, -⟩ := h.putPages pages hgen
  unfold State.takeFetched
  rw [hput]
  refine ⟨_, _, rfl, ⟨href.cache, href.nodup, href.memBytes, href.order, href.gens, href.evicted⟩,
    hsame.maxMemBytes, ?_, fun hw data => ?_⟩
  · change s'.fetched ++ _ = _
    rw [hsame.fetched]
  · have hwritten : ¬(s'.opfsDir = true ∧ pages ≠ [] ∧ o.written = false) := by
      rintro ⟨hd, -, hfalse⟩
      rw [hw (hsame.opfsDir ▸ hd)] at hfalse
      cases hfalse
    rw [if_neg hwritten, ← href.lookup_iff]
    cases s'.memCache.lookup p with
    | none => simp [Except.toOption]
    | some d => simp [Except.toOption]

/-- What one call of `getPageAsync` does, given the abstract cache before it. -/
structure Called (s : State) (l : List (Nat × Bytes)) (p : Nat) (o : Outside)
    (r : Except GetError Bytes) (s' : State) : Prop where
  refines : ∃ l', Refines s' l' ∧
    (Lru.Bounded List.length s.maxMemBytes l → Lru.Bounded List.length s.maxMemBytes l')
  maxMemBytes : s'.maxMemBytes = s.maxMemBytes
  fetched : s'.fetched = s.fetched ∨ ∃ m, o.pages = some m ∧ p ∉ Lru.keys l ∧
    s'.fetched = s.fetched ++ [⟨p, m.entries, r⟩] ∧ ((s.opfsDir = true → o.written = true) → ∀ data,
      r.toOption = some data ↔ (p, data) ∈ Lru.putAll List.length s.maxMemBytes m.entries l)

theorem bounded_use {budget : Nat} (h : Lru.Bounded List.length budget l) :
    Lru.Bounded List.length budget (Lru.use p l) := by
  unfold Lru.Bounded at h ⊢
  rwa [Lru.total_perm (Lru.perm_use p l), (Lru.perm_use p l).length_eq]

theorem Refines.getPageAsync (h : Refines s l) (p : Nat) (o : Outside)
    (hgen : s.generation + 1 + (o.pages.map fun m => m.entries.length).getD 0 ≤ 2 ^ 53) :
    ∃ r s', s.getPageAsync p o = some (r, s') ∧ Called s l p o r s' := by
  have hone : s.generation + 1 ≤ 2 ^ 53 := by omega
  unfold State.getPageAsync
  rcases h.getPage p hone with ⟨hmiss, hp⟩ | ⟨data, s', hhit, href, hsame⟩
  · rw [hmiss]
    dsimp only
    cases hopfs : (if s.opfsDir then o.opfsPage else none) with
    | some opfsPage =>
      obtain ⟨s', hput, href, hsame, -⟩ := (h.count (s.hits + 1) s.misses).putMem p opfsPage hone
      exact ⟨.ok opfsPage, s', by dsimp only; rw [hput]; rfl, ⟨⟨_, href, Lru.bounded_put⟩, hsame.maxMemBytes,
        .inl hsame.fetched⟩⟩
    | none =>
      cases hloc : o.location with
      | none => exact ⟨_, _, rfl, ⟨⟨l, h.count _ _, id⟩, rfl, .inl rfl⟩⟩
      | some gid =>
        cases hpages : o.pages with
        | none => exact ⟨_, _, rfl, ⟨⟨l, h.count _ _, id⟩, rfl, .inl rfl⟩⟩
        | some m =>
          rw [hpages, Option.map_some, Option.getD_some] at hgen
          obtain ⟨r, s', hcall, href, hmax, hlog, hres⟩ :=
            (h.count s.hits (s.misses + 1)).takeFetched p gid o m.entries
              (show s.generation + m.entries.length ≤ 2 ^ 53 by omega)
          exact ⟨r, s', hcall, ⟨⟨_, href, Lru.bounded_putAll⟩, hmax,
            .inr ⟨m, hpages, hp, hlog, hres⟩⟩⟩
  · rw [hhit]
    exact ⟨.ok data, s', rfl, ⟨⟨_, href, bounded_use⟩, hsame.maxMemBytes, .inl hsame.fetched⟩⟩

theorem weight_perm {m m' : List (Nat × Bytes)} (h : m.Perm m') (e : Nat × Bytes) :
    Lru.weight List.length m e = Lru.weight List.length m' e := by
  have hsub : (Lru.entriesOf e.1 m).Perm (Lru.entriesOf e.1 m') := h.filter _
  unfold Lru.weight
  rw [Lru.total_perm hsub]

end Refinement

/-! ### Runs -/

/-- The state holds an abstract cache that keeps its budget. -/
def Kept (s : State) : Prop := ∃ l, Refines s l ∧ Lru.Bounded List.length s.maxMemBytes l

section Runs

variable {s s' : State} {e : Event}

/-- Every call ends, and the cache stays within its books. -/
theorem kept_step (h : Kept s) (hgen : Counted s e) : ∃ s', step s e = some s' ∧ Kept s' := by
  obtain ⟨l, href, hb⟩ := h
  cases e with
  | getPage p =>
    rcases href.getPage p hgen with ⟨hmiss, -⟩ | ⟨data, s', hhit, href', hsame⟩
    · exact ⟨s, by rw [step, hmiss], l, href, hb⟩
    · exact ⟨s', by rw [step, hhit], _, href', hsame.maxMemBytes ▸ bounded_use hb⟩
  | getPageAsync p o =>
    obtain ⟨r, s', hcall, hcalled⟩ := href.getPageAsync p o hgen
    obtain ⟨l', href', hb'⟩ := hcalled.refines
    exact ⟨s', by rw [step, hcall]; rfl, l', href', hcalled.maxMemBytes ▸ hb' hb⟩
  | putPages pages =>
    obtain ⟨s', hput, href', hsame, -⟩ := href.putPages pages hgen
    refine ⟨s', hput, _, href', ?_⟩
    rw [hsame.maxMemBytes]
    exact Lru.bounded_putAll hb
  | clear =>
    refine ⟨s.clear, rfl, [], ⟨List.Perm.nil, List.nodup_nil, rfl, rfl, ?_, href.evicted⟩, ?_⟩
    · exact ⟨fun _ => 0, List.Perm.nil, List.Pairwise.nil, fun e he => by cases he⟩
    · exact .inr (Nat.zero_le _)

theorem Kept.step (h : Kept s) (hgen : Counted s e) (hs : step s e = some s') : Kept s' := by
  obtain ⟨m, hm, hk⟩ := kept_step h hgen
  cases hm.symm.trans hs
  exact hk

/-- With room for the fetched page the call returns it. -/
theorem Kept.answered (h : Kept s) (hgen : Counted s e) (hroom : HasRoom s e) (ha : Answered s)
    (hs : BrowserCache.step s e = some s') : Answered s' := by
  obtain ⟨l, href, -⟩ := h
  cases e with
  | getPage p =>
    have hf : s'.fetched = s.fetched := by
      rcases href.getPage p hgen with ⟨hmiss, -⟩ | ⟨data, t, hhit, -, hsame⟩
      · rw [BrowserCache.step, hmiss] at hs
        cases hs
        rfl
      · rw [BrowserCache.step, hhit] at hs
        cases hs
        exact hsame.fetched
    exact fun f hmem => ha f (hf ▸ hmem)
  | getPageAsync p o =>
    obtain ⟨r, t, hcall, hcalled⟩ := href.getPageAsync p o hgen
    rw [BrowserCache.step, hcall] at hs
    cases hs
    rcases hcalled.fetched with hf | ⟨m, hm, hp, hf, hres⟩
    · exact fun f hmem => ha f (hf ▸ hmem)
    · intro f hmem data hdata
      rw [hf] at hmem
      rcases List.mem_append.mp hmem with hmem | hmem
      · exact ha f hmem data hdata
      · cases List.mem_singleton.mp hmem
        obtain ⟨hw, hfits⟩ := hroom m hm
        obtain ⟨pre, post, hsplit⟩ := List.append_of_mem hdata
        dsimp only at hsplit
        rw [hres hw, hsplit]
        refine Lru.mem_putAll_of_room hp (hsplit ▸ m.nodup) ?_
        have hroom' := hfits pre data post hsplit
        rwa [List.map_congr_left fun e _ => weight_perm href.cache e] at hroom'
  | putPages pages =>
    obtain ⟨t, hput, -, hsame, -⟩ := href.putPages pages hgen
    cases hput.symm.trans hs
    exact fun f hmem => ha f (hsame.fetched ▸ hmem)
  | clear =>
    cases hs
    exact ha

theorem Kept.accounted (h : Kept s) : Accounted s := by
  obtain ⟨l, href, -⟩ := h
  have hkeys := keys_perm href.cache
  obtain ⟨g, hperm, -, -⟩ := href.gens
  have hgens : (Lru.keys s.accessGen).Perm (Lru.keys l) := by
    refine (keys_perm hperm).trans (List.Perm.of_eq ?_)
    simp [Lru.keys]
  refine ⟨?_, href.nodup_memCache, hgens.trans hkeys.symm, href.order ▸ hkeys.symm, href.evicted⟩
  rw [href.memBytes, Lru.total_perm href.cache]

end Runs

/-- A new cache. -/
def opened (maxMemBytes : Nat) (opfsDir : Bool) : State :=
  { maxMemBytes := maxMemBytes, opfsDir := opfsDir }

theorem kept_opened (maxMemBytes : Nat) (opfsDir : Bool) : Kept (opened maxMemBytes opfsDir) :=
  ⟨[], ⟨List.Perm.nil, List.nodup_nil, rfl, rfl, ⟨fun _ => 0, List.Perm.nil, List.Pairwise.nil,
    fun e he => by cases he⟩, fun e he => by cases he⟩, .inr (Nat.zero_le _)⟩

/-- For every budget and every sequence of calls the books are right and every further call ends; a
fetch that brings the page is answered with it in every run in which each had room for it. -/
theorem cache_answers {maxMemBytes : Nat} {opfsDir : Bool} {es : List Event} {s : State}
    (hgen : Meets step Counted (opened maxMemBytes opfsDir) es)
    (hr : run step (opened maxMemBytes opfsDir) es = some s) :
    Accounted s ∧ (∀ e, Counted s e → (step s e).isSome) ∧
      (Meets step (fun s e => Counted s e ∧ HasRoom s e) (opened maxMemBytes opfsDir) es →
        Answered s) := by
  have hkept : Kept s := run_invariant (fun _ _ _ h hc hs => h.step hc hs) (kept_opened _ _) hgen hr
  refine ⟨hkept.accounted, fun e he => ?_, fun hroom => ?_⟩
  · obtain ⟨s', hs, -⟩ := kept_step hkept he
    rw [hs]
    rfl
  · have hstep : ∀ s e s', (Kept s ∧ Answered s) → (Counted s e ∧ HasRoom s e) →
        step s e = some s' → Kept s' ∧ Answered s' :=
      fun _ _ _ h hc hs => ⟨h.1.step hc.1 hs, h.1.answered hc.1 hc.2 h.2 hs⟩
    have hstart : Kept (opened maxMemBytes opfsDir) ∧ Answered (opened maxMemBytes opfsDir) :=
      ⟨kept_opened _ _, fun f hf => by cases hf⟩
    exact (run_invariant hstep hstart hroom hr).2

/-- A missing page that the fetch brings is returned exactly when nothing comes after it, or it fits the
budget with what does: for pages of the sizes they have in the cache. -/
theorem fetched_page_returned_iff {s s' : State} {p gid : Nat} {o : Outside} {m : PageMap}
    {r : Except GetError Bytes} {pre post : List (Nat × Bytes)} {data : Bytes} (h : Kept s)
    (hgen : Counted s (.getPageAsync p o)) (hmiss : p ∉ Lru.keys s.memCache)
    (hopfs : s.opfsDir = true → o.opfsPage = none ∧ o.written = true) (hloc : o.location = some gid)
    (hpages : o.pages = some m) (hsplit : m.entries = pre ++ (p, data) :: post)
    (hsame : ∀ e ∈ post, ∀ v, (e.1, v) ∈ s.memCache → v.length = e.2.length)
    (hcall : s.getPageAsync p o = some (r, s')) : r.toOption = some data ↔
      post = [] ∨ data.length + (post.map fun e => e.2.length).sum ≤ s.maxMemBytes := by
  obtain ⟨l, href, hb⟩ := h
  have hp : p ∉ Lru.keys l := fun hk => hmiss (href.mem_keys.mpr hk)
  have hnone : (if s.opfsDir then o.opfsPage else none) = none := by
    split
    · rename_i hd
      exact (hopfs hd).1
    · rfl
  have hlook : s.memCache.lookup p = none := (lookup_eq_none_iff href.nodup_memCache).mpr hmiss
  simp only [Counted, hpages, Option.map_some, Option.getD_some] at hgen
  obtain ⟨r', t, htake, -, -, -, hres⟩ := (href.count s.hits (s.misses + 1)).takeFetched p gid o
    m.entries (show s.generation + m.entries.length ≤ 2 ^ 53 by omega)
  have hr : r = r' := by
    simp only [State.getPageAsync, State.getPage, hlook, hnone, hloc, hpages, htake,
      Option.some.injEq, Prod.mk.injEq] at hcall
    exact hcall.1.symm
  have hnd : (Lru.keys (pre ++ (p, data) :: post)).Nodup := hsplit ▸ m.nodup
  have hsize : ∀ e ∈ post, ∀ v, (e.1, v) ∈ l → v.length = e.2.length :=
    fun e he v hv => hsame e he v (href.cache.mem_iff.mpr hv)
  rw [hr, hres fun hd => (hopfs hd).2, hsplit]
  constructor
  · exact Lru.room_of_mem_putAll href.nodup hb hp hnd hsize
  · intro hroom
    refine Lru.mem_putAll_of_room hp hnd (hroom.imp_right fun hfit => ?_)
    have hweight : ∀ e ∈ post, Lru.weight List.length l e = e.2.length :=
      fun e he => Lru.weight_of_same href.nodup (hsize e he)
    rwa [List.map_congr_left hweight]

/-! ### A group larger than the budget -/

namespace Example

/-- A group of three pages. -/
def group : PageMap where
  entries := [(0, [10, 10]), (1, [11, 11]), (2, [12, 12])]
  nodup := by decide

/-- A fetch of the group 0 that succeeds. -/
def fetch : Outside where
  opfsPage := none
  location := some 0
  pages := some group
  written := true

end Example

theorem cache_answers_group : ∃ s, run step (opened 6 false) [.getPageAsync 0 Example.fetch] = some s ∧
    Accounted s ∧ (∀ e, Counted s e → (step s e).isSome) ∧ Answered s := by
  have hcounted : Counted (opened 6 false) (.getPageAsync 0 Example.fetch) := by
    change 0 + 1 + 3 ≤ 2 ^ 53
    decide
  have hroom : HasRoom (opened 6 false) (.getPageAsync 0 Example.fetch) := by
    rintro m ⟨⟩
    refine ⟨fun _ => rfl, fun pre data post hsplit => .inr ?_⟩
    cases pre with
    | nil =>
      cases hsplit
      decide
    | cons x pre =>
      -- page 0 comes first
      have hmem : (0, data) ∈ [(1, [11, 11]), ((2, [12, 12]) : Nat × Bytes)] := by
        rw [(List.cons.inj hsplit).2]
        exact List.mem_append_right _ List.mem_cons_self
      simp at hmem
  have hmeets : Meets step Counted (opened 6 false) [.getPageAsync 0 Example.fetch] :=
    ⟨hcounted, fun _ _ => trivial⟩
  obtain ⟨hacc, hends, hans⟩ := cache_answers hmeets rfl
  exact ⟨_, rfl, hacc, hends, hans ⟨⟨hcounted, hroom⟩, fun _ _ => trivial⟩⟩

/-- With a budget of two pages the fetch brings page 0 and the call throws. -/
theorem group_over_budget_throws : ∃ s,
    (opened 4 false).getPageAsync 0 Example.fetch =
      some (.error (.error "Page 0 not in fetched group 0"), s) ∧
    (0, [10, 10]) ∈ Example.group.entries ∧ ¬ Answered s := by
  refine ⟨_, rfl, by decide, fun h => ?_⟩
  have hanswer := h _ List.mem_cons_self [10, 10] (by decide)
  cases hanswer

end Turbolite.BrowserCache
