import Mathlib.Algebra.BigOperators.Group.List.Basic
import Mathlib.Algebra.Order.BigOperators.Group.List
import Mathlib.Algebra.Order.Group.Nat
import Mathlib.Algebra.Ring.Nat
import Mathlib.Data.List.Perm.Subperm
import Mathlib.Data.List.Nodup

/-!
# Turbolite.Lib.Lru

A cache with a budget that drops its least recently used entries, as the list of its entries from the
oldest use to the latest. An entry that is too big for the budget alone is let in when nothing else is
left. `mem_putAll_iff` says when an entry outlives the entries put after it.
-/

namespace Lru

variable {κ β : Type*}

/-- The keys, the least recent first. -/
def keys (l : List (κ × β)) : List κ := l.map (·.1)

/-- The size of all entries. -/
def total (size : β → Nat) (l : List (κ × β)) : Nat := (l.map fun e => size e.2).sum

/-- The entries of a key; at most one when keys are distinct. -/
def entriesOf [DecidableEq κ] (k : κ) (l : List (κ × β)) : List (κ × β) := l.filter (·.1 = k)

/-- The entry of the key becomes the latest. -/
def use [DecidableEq κ] (k : κ) (l : List (κ × β)) : List (κ × β) := l.filter (·.1 ≠ k) ++ entriesOf k l

/-- The oldest entries go until what is left fits beside `need`. -/
def shrink (size : β → Nat) (budget need : Nat) : List (κ × β) → List (κ × β)
  | [] => []
  | e :: l => if total size (e :: l) + need ≤ budget then e :: l else shrink size budget need l

/-- A key that is there is only used. -/
def put [DecidableEq κ] (size : β → Nat) (budget : Nat) (k : κ) (v : β) (l : List (κ × β)) : List (κ × β) :=
  if k ∈ keys l then use k l else shrink size budget (size v) l ++ [(k, v)]

/-- Entries are put in one after the other. -/
def putAll [DecidableEq κ] (size : β → Nat) (budget : Nat) (es l : List (κ × β)) : List (κ × β) :=
  es.foldl (fun l e => put size budget e.1 e.2 l) l

/-- Within the budget, or with one entry at most. -/
def Bounded (size : β → Nat) (budget : Nat) (l : List (κ × β)) : Prop :=
  total size l ≤ budget ∨ l.length ≤ 1

variable {size : β → Nat} {budget need : Nat} {k : κ} {v : β} {l es new : List (κ × β)}

/-! ### Totals and keys -/

@[simp] theorem total_nil : total size ([] : List (κ × β)) = 0 := rfl

@[simp] theorem total_cons (e : κ × β) (l : List (κ × β)) :
    total size (e :: l) = size e.2 + total size l := by
  simp [total]

@[simp] theorem total_append (l l' : List (κ × β)) :
    total size (l ++ l') = total size l + total size l' := by
  simp [total]

theorem total_perm {l l' : List (κ × β)} (h : l.Perm l') : total size l = total size l' :=
  (h.map _).sum_eq

theorem total_sublist {l l' : List (κ × β)} (h : l.Sublist l') : total size l ≤ total size l' :=
  (h.map _).sum_le_sum fun _ _ => Nat.zero_le _

theorem mem_keys : k ∈ keys l ↔ ∃ v, (k, v) ∈ l := by
  simp [keys]

@[simp] theorem keys_append (l l' : List (κ × β)) : keys (l ++ l') = keys l ++ keys l' :=
  List.map_append

/-- Entries with the keys of others and the same sizes take as much room. -/
theorem sum_le_total (hnd : (keys es).Nodup)
    (h : ∀ e ∈ es, ∃ v, (e.1, v) ∈ new ∧ size v = size e.2) :
    (es.map fun e => size e.2).sum ≤ total size new := by
  have hsub : (es.map fun e => (e.1, size e.2)).Subperm (new.map fun e => (e.1, size e.2)) := by
    refine List.Nodup.subperm (List.Nodup.of_map Prod.fst ?_) ?_
    · rw [List.map_map]
      exact hnd
    · intro x hx
      obtain ⟨e, he, rfl⟩ := List.mem_map.mp hx
      obtain ⟨v, hv, hsize⟩ := h e he
      exact List.mem_map.mpr ⟨(e.1, v), hv, by rw [hsize]⟩
  obtain ⟨xs, hperm, hsubl⟩ := hsub
  have hsum : (es.map fun e => size e.2).sum = (xs.map Prod.snd).sum := by
    rw [(hperm.map Prod.snd).sum_eq, List.map_map]
    rfl
  have hle := (hsubl.map Prod.snd).sum_le_sum fun _ _ => Nat.zero_le _
  rw [List.map_map] at hle
  rw [hsum]
  exact hle

theorem perm_use [DecidableEq κ] (k : κ) (l : List (κ × β)) : (use k l).Perm l := by
  have hp : (use k l).Perm (entriesOf k l ++ l.filter fun e => !decide (e.1 = k)) := by
    unfold use
    have he : (l.filter fun e => decide (e.1 ≠ k)) = l.filter fun e => !decide (e.1 = k) :=
      List.filter_congr fun e _ => by simp
    rw [he]
    exact List.perm_append_comm
  exact hp.trans (List.filter_append_perm _ l)

/-! ### Shrinking -/

theorem shrink_suffix (need : Nat) (l : List (κ × β)) : shrink size budget need l <:+ l := by
  induction l with
  | nil => exact List.suffix_refl _
  | cons e l ih =>
    unfold shrink
    split
    · exact List.suffix_refl _
    · exact ih.trans (List.suffix_cons e l)

theorem shrink_fits (need : Nat) (l : List (κ × β)) : shrink size budget need l = [] ∨
    total size (shrink size budget need l) + need ≤ budget := by
  induction l with
  | nil => exact .inl rfl
  | cons e l ih =>
    unfold shrink
    split
    · rename_i hfit
      exact .inr hfit
    · exact ih

/-- What fits is not dropped. -/
theorem suffix_shrink (h : new <:+ l) (hfit : total size new + need ≤ budget) :
    new <:+ shrink size budget need l := by
  induction l with
  | nil =>
    unfold shrink
    exact h
  | cons e l ih =>
    unfold shrink
    split
    · exact h
    · rename_i hover
      rcases List.suffix_cons_iff.mp h with rfl | h
      · exact absurd hfit hover
      · exact ih h

/-! ### What a put keeps -/

section Put

variable [DecidableEq κ]

theorem putAll_cons (e : κ × β) (es l : List (κ × β)) :
    putAll size budget (e :: es) l = putAll size budget es (put size budget e.1 e.2 l) := rfl

theorem nodup_put (h : (keys l).Nodup) : (keys (put size budget k v l)).Nodup := by
  unfold put
  split
  · exact ((perm_use k l).map Prod.fst).nodup_iff.mpr h
  · rename_i hk
    have hsub : (keys (shrink size budget (size v) l)).Sublist (keys l) :=
      (shrink_suffix _ l).sublist.map Prod.fst
    rw [keys_append]
    refine (h.sublist hsub).append (List.nodup_singleton k) fun x hx hk' => ?_
    rw [List.mem_singleton.mp hk'] at hx
    exact hk (hsub.subset hx)

theorem bounded_put (h : Bounded size budget l) : Bounded size budget (put size budget k v l) := by
  unfold put
  split
  · rcases h with h | h
    · exact .inl (total_perm (perm_use k l) ▸ h)
    · exact .inr ((perm_use k l).length_eq ▸ h)
  · have hfits : shrink size budget (size v) l = [] ∨
        total size (shrink size budget (size v) l) + size v ≤ budget := shrink_fits _ l
    rcases hfits with hnil | hfit
    · rw [hnil]
      exact .inr (Nat.le_refl _)
    · refine .inl ?_
      simpa using hfit

theorem mem_put {e : κ × β} (h : e ∈ put size budget k v l) : e ∈ l ∨ e = (k, v) := by
  unfold put at h
  split at h
  · exact .inl ((perm_use k l).mem_iff.mp h)
  · rcases List.mem_append.mp h with h | h
    · exact .inl ((shrink_suffix _ l).subset h)
    · exact .inr (List.mem_singleton.mp h)

theorem mem_putAll {e : κ × β} (h : e ∈ putAll size budget es l) : e ∈ l ∨ e ∈ es := by
  induction es generalizing l with
  | nil => exact .inl h
  | cons x es ih =>
    rcases ih h with h | h
    · rcases mem_put h with h | h
      · exact .inl h
      · exact .inr (h ▸ List.mem_cons_self)
    · exact .inr (List.mem_cons_of_mem x h)

theorem nodup_putAll (h : (keys l).Nodup) : (keys (putAll size budget es l)).Nodup := by
  induction es generalizing l with
  | nil => exact h
  | cons e es ih => exact ih (nodup_put h)

theorem bounded_putAll (h : Bounded size budget l) : Bounded size budget (putAll size budget es l) := by
  induction es generalizing l with
  | nil => exact h
  | cons e es ih => exact ih (bounded_put h)


/-! ### Outliving later puts -/

theorem mem_keys_entriesOf (h : k ∈ keys l) : k ∈ keys (entriesOf k l) := by
  obtain ⟨v, hv⟩ := mem_keys.mp h
  exact mem_keys.mpr ⟨v, List.mem_filter.mpr ⟨hv, by simp⟩⟩

/-- An entry stays where it is when another one is used; the later entries stay behind it. -/
theorem suffix_use {p : κ × β} (hsuf : p :: new <:+ l) (hne : p.1 ≠ k) :
    p :: (new.filter (·.1 ≠ k) ++ entriesOf k l) <:+ use k l := by
  obtain ⟨old, rfl⟩ := hsuf
  refine ⟨old.filter (·.1 ≠ k), ?_⟩
  simp [use, List.filter_append, hne]

/-- What a put adds behind an earlier entry at most. -/
def weight (size : β → Nat) (l : List (κ × β)) (e : κ × β) : Nat :=
  max (size e.2) (total size (entriesOf e.1 l))

/-- An entry of the size it has already weighs that size. -/
theorem weight_of_same {e : κ × β} (hnd : (keys l).Nodup)
    (h : ∀ v, (e.1, v) ∈ l → size v = size e.2) : weight size l e = size e.2 := by
  have hle : total size (entriesOf e.1 l) ≤ size e.2 := by
    induction l with
    | nil => exact Nat.zero_le _
    | cons x l ih =>
      obtain ⟨hx, hnd'⟩ : x.1 ∉ keys l ∧ (keys l).Nodup := List.nodup_cons.mp hnd
      unfold entriesOf
      by_cases hk : x.1 = e.1
      · have hnone : l.filter (·.1 = e.1) = [] := by
          refine List.filter_eq_nil_iff.mpr fun y hy hye => hx (mem_keys.mpr ⟨y.2, ?_⟩)
          rw [hk, ← of_decide_eq_true hye]
          exact hy
        rw [List.filter_cons_of_pos (by simpa using hk), hnone, total_cons, total_nil, Nat.add_zero]
        exact (h x.2 (by rw [← hk]; exact List.mem_cons_self)).le
      · rw [List.filter_cons_of_neg (by simpa using hk)]
        exact ih hnd' fun v hv => h v (List.mem_cons_of_mem x hv)
  exact Nat.max_eq_left hle

/-- An entry with room for the put behind it stays. -/
theorem suffix_put {p e : κ × β} (hsuf : p :: new <:+ l) (hne : p.1 ≠ e.1)
    (hfit : total size (p :: new) + weight size l e ≤ budget) : ∃ new',
      p :: new' <:+ put size budget e.1 e.2 l ∧ total size new' ≤ total size new + weight size l e := by
  unfold put
  split
  · refine ⟨_, suffix_use hsuf hne, ?_⟩
    have hle : total size (new.filter fun x => x.1 ≠ e.1) ≤ total size new :=
      total_sublist List.filter_sublist
    have hmax : total size (entriesOf e.1 l) ≤ weight size l e := Nat.le_max_right ..
    rw [total_append]
    omega
  · have hroom : total size (p :: new) + size e.2 ≤ budget := by
      have hmax : size e.2 ≤ weight size l e := Nat.le_max_left ..
      omega
    obtain ⟨old, hold⟩ := suffix_shrink hsuf hroom
    refine ⟨new ++ [e], ⟨old, ?_⟩, ?_⟩
    · rw [← hold]
      simp
    · have hmax : size e.2 ≤ weight size l e := Nat.le_max_left ..
      simpa using hmax

/-- A put of another key brings no entry. -/
theorem entriesOf_put_sublist {k' : κ} (hne : k' ≠ k) :
    (entriesOf k' (put size budget k v l)).Sublist (entriesOf k' l) := by
  unfold put
  split
  · have hu : entriesOf k' (use k l) = entriesOf k' l := by
      unfold use
      rw [entriesOf, List.filter_append, entriesOf, entriesOf, List.filter_filter, List.filter_filter]
      have hnone : (l.filter fun e => decide (e.1 = k') && decide (e.1 = k)) = [] := by
        refine List.filter_eq_nil_iff.mpr fun e _ he => ?_
        simp only [Bool.and_eq_true, decide_eq_true_eq] at he
        exact hne (he.1.symm.trans he.2)
      rw [hnone, List.append_nil]
      refine List.filter_congr fun e _ => ?_
      by_cases he : e.1 = k' <;> simp [he, hne]
    rw [hu]
  · rw [entriesOf, List.filter_append]
    have hnone : [(k, v)].filter (fun e => e.1 = k') = [] := by simp [Ne.symm hne]
    rw [hnone, List.append_nil]
    exact (shrink_suffix _ l).sublist.filter _

theorem weight_put_le {e : κ × β} (hne : e.1 ≠ k) :
    weight size (put size budget k v l) e ≤ weight size l e := by
  have hle : total size (entriesOf e.1 (put size budget k v l)) ≤ total size (entriesOf e.1 l) :=
    total_sublist (entriesOf_put_sublist hne)
  unfold weight
  omega

theorem mem_putAll_of_fits {p : κ × β} (hsuf : p :: new <:+ l) (hp : p.1 ∉ keys es)
    (hnd : (keys es).Nodup)
    (hfit : total size (p :: new) + (es.map (weight size l)).sum ≤ budget) :
    p ∈ putAll size budget es l := by
  induction es generalizing l new with
  | nil => exact hsuf.subset List.mem_cons_self
  | cons e es ih =>
    obtain ⟨he, hnd'⟩ : e.1 ∉ keys es ∧ (keys es).Nodup := List.nodup_cons.mp hnd
    obtain ⟨hpe, hpes⟩ := not_or.mp (fun h => hp (List.mem_cons.mpr h))
    rw [List.map_cons, List.sum_cons] at hfit
    have hstep : total size (p :: new) + weight size l e ≤ budget := by omega
    obtain ⟨new', hsuf', hle⟩ := suffix_put hsuf hpe hstep
    refine ih hsuf' hpes hnd' ?_
    -- the later puts weigh no more than before this one
    have hlater : (es.map (weight size (put size budget e.1 e.2 l))).sum ≤
        (es.map (weight size l)).sum := by
      refine List.sum_le_sum fun x hx => weight_put_le fun hk => he (mem_keys.mpr ⟨x.2, ?_⟩)
      exact hk ▸ hx
    rw [total_cons] at hfit hstep ⊢
    dsimp only at hlater ⊢
    omega

/-- While an earlier entry is there, so is everything behind it. -/
theorem suffix_put_of_mem {p e : κ × β} (hnd : (keys l).Nodup) (hsuf : p :: new <:+ l)
    (hne : p.1 ≠ e.1) (hmem : p ∈ put size budget e.1 e.2 l) : ∃ new',
      p :: new' <:+ put size budget e.1 e.2 l ∧ ∀ k ∈ e.1 :: keys new, k ∈ keys new' := by
  unfold put at hmem ⊢
  split at hmem
  · rename_i hk
    rw [if_pos hk]
    refine ⟨_, suffix_use hsuf hne, fun k hk' => ?_⟩
    rw [keys_append, List.mem_append]
    rcases List.mem_cons.mp hk' with rfl | hk'
    · exact .inr (mem_keys_entriesOf hk)
    · by_cases hke : k = e.1
      · subst hke
        exact .inr (mem_keys_entriesOf hk)
      · obtain ⟨v, hv⟩ := mem_keys.mp hk'
        exact .inl (mem_keys.mpr ⟨v, List.mem_filter.mpr ⟨hv, by simpa using hke⟩⟩)
  · rename_i hk
    rw [if_neg hk]
    have hin : p ∈ shrink size budget (size e.2) l := by
      rcases List.mem_append.mp hmem with hin | hin
      · exact hin
      · exact absurd (congrArg Prod.fst (List.mem_singleton.mp hin)) hne
    -- a suffix that has the entry has all that follows it
    have hall : p :: new <:+ shrink size budget (size e.2) l := by
      rcases List.suffix_or_suffix_of_suffix hsuf (shrink_suffix _ l) with h | h
      · exact h
      · rcases List.suffix_cons_iff.mp h with h | h
        · exact h ▸ List.suffix_refl _
        · have hpn : p.1 ∉ keys new := by
            have hn := hnd.sublist (hsuf.sublist.map Prod.fst)
            exact (List.nodup_cons.mp hn).1
          exact absurd (List.mem_map_of_mem (h.subset hin)) hpn
    obtain ⟨old, hold⟩ := hall
    refine ⟨new ++ [e], ⟨old, ?_⟩, fun k hk' => ?_⟩
    · rw [← hold]
      simp
    · rw [keys_append, List.mem_append]
      rcases List.mem_cons.mp hk' with rfl | hk'
      · exact .inr List.mem_cons_self
      · exact .inl hk'

theorem suffix_of_mem_putAll {p : κ × β} (hnd : (keys l).Nodup) (hsuf : p :: new <:+ l)
    (hp : p.1 ∉ keys es) (hmem : p ∈ putAll size budget es l) : ∃ new',
      p :: new' <:+ putAll size budget es l ∧ ∀ k ∈ keys es ++ keys new, k ∈ keys new' := by
  induction es generalizing l new with
  | nil => exact ⟨new, hsuf, fun k hk => hk⟩
  | cons e es ih =>
    obtain ⟨hpe, hpes⟩ := not_or.mp (fun h => hp (List.mem_cons.mpr h))
    have hfinal : p ∈ putAll size budget es (put size budget e.1 e.2 l) := hmem
    have hmem' : p ∈ put size budget e.1 e.2 l := by
      rcases mem_putAll hfinal with h | h
      · exact h
      · exact absurd (mem_keys.mpr ⟨p.2, h⟩) hpes
    obtain ⟨new', hsuf', hkeys⟩ := suffix_put_of_mem hnd hsuf hpe hmem'
    obtain ⟨new'', hsuf'', hkeys'⟩ := ih (nodup_put hnd) hsuf' hpes hmem
    refine ⟨new'', hsuf'', fun k hk => hkeys' k ?_⟩
    rw [List.mem_append] at hk ⊢
    rcases hk with hk | hk
    · rcases List.mem_cons.mp hk with rfl | hk
      · exact .inr (hkeys _ List.mem_cons_self)
      · exact .inl hk
    · exact .inr (hkeys k (List.mem_cons_of_mem _ hk))

/-! ### One entry among those put together -/

theorem weight_putAll_le {e : κ × β} (hne : e.1 ∉ keys es) :
    weight size (putAll size budget es l) e ≤ weight size l e := by
  induction es generalizing l with
  | nil => exact Nat.le_refl _
  | cons x es ih =>
    obtain ⟨hx, hes⟩ := not_or.mp (fun h => hne (List.mem_cons.mpr h))
    exact (ih hes).trans (weight_put_le hx)

theorem put_of_notMem (hk : k ∉ keys l) :
    put size budget k v l = shrink size budget (size v) l ++ [(k, v)] := if_neg hk

theorem notMem_putAll (hl : k ∉ keys l) (hes : k ∉ keys es) : k ∉ keys (putAll size budget es l) := by
  intro h
  obtain ⟨v, hv⟩ := mem_keys.mp h
  rcases mem_putAll hv with h | h
  · exact hl (mem_keys.mpr ⟨v, h⟩)
  · exact hes (mem_keys.mpr ⟨v, h⟩)

theorem putAll_append (es es' l : List (κ × β)) :
    putAll size budget (es ++ es') l = putAll size budget es' (putAll size budget es l) :=
  List.foldl_append

section Among

variable {pre post : List (κ × β)} {p : κ × β}

/-- The new entry is the latest when it is put. -/
theorem suffix_putAll_concat (hp : p.1 ∉ keys l) (hpre : p.1 ∉ keys pre) :
    [p] <:+ put size budget p.1 p.2 (putAll size budget pre l) := by
  rw [put_of_notMem (notMem_putAll hp hpre)]
  exact List.suffix_append _ _

/-- A new entry is there in the end when everything put after it fits beside it. -/
theorem mem_putAll_of_room (hp : p.1 ∉ keys l) (hnd : (keys (pre ++ p :: post)).Nodup)
    (hroom : post = [] ∨ size p.2 + (post.map (weight size l)).sum ≤ budget) :
    p ∈ putAll size budget (pre ++ p :: post) l := by
  rw [keys_append] at hnd
  obtain ⟨-, hpost, hdis⟩ := List.nodup_append.mp hnd
  obtain ⟨hpp, hpost⟩ : p.1 ∉ keys post ∧ (keys post).Nodup := List.nodup_cons.mp hpost
  have hpre : p.1 ∉ keys pre := fun h => hdis p.1 h p.1 List.mem_cons_self rfl
  have hsuf : [p] <:+ put size budget p.1 p.2 (putAll size budget pre l) :=
    suffix_putAll_concat hp hpre
  rw [putAll_append, putAll_cons]
  rcases hroom with rfl | hroom
  · exact hsuf.subset List.mem_cons_self
  · refine mem_putAll_of_fits hsuf hpp hpost ?_
    have hlater : (post.map (weight size (put size budget p.1 p.2 (putAll size budget pre l)))).sum ≤
        (post.map (weight size l)).sum := by
      refine List.sum_le_sum fun x hx => ?_
      have hx' : x.1 ∈ keys post := mem_keys.mpr ⟨x.2, hx⟩
      have hxp : x.1 ≠ p.1 := by
        intro h
        exact hpp (h ▸ hx')
      have hxpre : x.1 ∉ keys pre := fun h => hdis x.1 h x.1 (List.mem_cons_of_mem _ hx') rfl
      exact (weight_put_le hxp).trans (weight_putAll_le hxpre)
    simp only [total_cons, total_nil, Nat.add_zero]
    omega

theorem room_of_mem_putAll (hl : (keys l).Nodup) (hb : Bounded size budget l) (hp : p.1 ∉ keys l)
    (hnd : (keys (pre ++ p :: post)).Nodup)
    (hsame : ∀ e ∈ post, ∀ v, (e.1, v) ∈ l → size v = size e.2)
    (hmem : p ∈ putAll size budget (pre ++ p :: post) l) :
    post = [] ∨ size p.2 + (post.map fun e => size e.2).sum ≤ budget := by
  have hnd' : ((pre ++ p :: post).map Prod.fst).Nodup := hnd
  rw [keys_append] at hnd
  obtain ⟨-, hpost, hdis⟩ := List.nodup_append.mp hnd
  obtain ⟨hpp, hpost⟩ : p.1 ∉ keys post ∧ (keys post).Nodup := List.nodup_cons.mp hpost
  have hpre : p.1 ∉ keys pre := fun h => hdis p.1 h p.1 List.mem_cons_self rfl
  have hfinal : Bounded size budget (putAll size budget (pre ++ p :: post) l) := bounded_putAll hb
  have hfinal' := fun x (hx : x ∈ putAll size budget (pre ++ p :: post) l) => mem_putAll hx
  rw [putAll_append, putAll_cons] at hmem hfinal hfinal'
  have hndm : (keys (put size budget p.1 p.2 (putAll size budget pre l))).Nodup :=
    nodup_put (nodup_putAll hl)
  obtain ⟨new, hsuf, hkeys⟩ :=
    suffix_of_mem_putAll hndm (suffix_putAll_concat hp hpre) hpp hmem
  have hsum : (post.map fun e => size e.2).sum ≤ total size new := by
    refine sum_le_total hpost fun e he => ?_
    obtain ⟨v, hv⟩ := mem_keys.mp (hkeys e.1 (List.mem_append_left _ (mem_keys.mpr ⟨e.2, he⟩)))
    refine ⟨v, hv, ?_⟩
    have he' : e.1 ∈ keys post := mem_keys.mpr ⟨e.2, he⟩
    -- the entry was there before, or it is the one put
    rcases hfinal' _ (hsuf.subset (List.mem_cons_of_mem p hv)) with hold | hput
    · exact hsame e he v hold
    · have heq : (e.1, v) = e := by
        refine (List.inj_on_of_nodup_map hnd') hput ?_ rfl
        exact List.mem_append_right _ (List.mem_cons_of_mem _ he)
      rw [← heq]
  have htotal : total size (p :: new) ≤ total size
      (putAll size budget post (put size budget p.1 p.2 (putAll size budget pre l))) :=
    total_sublist hsuf.sublist
  rcases hfinal with hfit | hone
  · refine .inr ?_
    rw [total_cons] at htotal
    omega
  · -- the entry alone
    have hlen := hsuf.length_le
    have hnew : new = [] := by
      rw [List.length_cons] at hlen
      exact List.eq_nil_of_length_eq_zero (by omega)
    refine .inl (List.eq_nil_iff_forall_not_mem.mpr fun e he => ?_)
    have hin := hkeys e.1 (List.mem_append_left _ (mem_keys.mpr ⟨e.2, he⟩))
    rw [hnew] at hin
    cases hin

end Among

end Put

end Lru
