import Mathlib.Data.Bool.AllAny
import Turbolite.QueryPlan

/-!
# Turbolite.QueryPlanLines

What the parser makes of one line of the documented forms, and of a text of such lines.
-/

namespace Turbolite.QueryPlan

open TextSearch

/-! ### Words of a line -/

theorem spaced_listText (l : Line) : Spaced l.listText := by
  unfold Line.listText
  cases l.constraints with
  | nil => exact .inl rfl
  | cons c cs => exact .inr ⟨_, rfl⟩

theorem IndexUse.exists_text_eq (i : IndexUse) : ∃ u, i.text = ' ' :: u := by
  unfold IndexUse.text
  cases i.covering <;> exact ⟨_, rfl⟩

/-- What stands behind the table. -/
def Line.more (l : Line) : Text := l.indexText ++ l.listText

theorem spaced_more (l : Line) : Spaced l.more := by
  unfold Line.more Line.indexText
  cases l.index with
  | none => exact spaced_listText l
  | some i =>
    obtain ⟨u, hu⟩ := i.exists_text_eq
    exact .inr ⟨_, by rw [Option.map_some, Option.getD_some, hu, List.cons_append]⟩

/-- The table is not mistaken for the optional word before it. -/
def Line.TableRead (l : Line) : Prop :=
  l.keyword ≠ none ∨ l.table.chars ≠ "TABLE".toList ∧ l.table.chars ≠ "SUBQUERY".toList

theorem splitWhitespace_name (n : Name) {t : Text} (ht : Spaced t) :
    splitWhitespace (n.chars ++ t) = n.chars :: splitWhitespace t :=
  splitWhitespace_append n.nonempty n.isWhitespace_eq_false ht

theorem splitWhitespace_rest (l : Line) :
    splitWhitespace l.rest =
      (l.keyword.map Keyword.text).toList ++ l.table.chars :: splitWhitespace l.more := by
  have htable := splitWhitespace_name l.table (spaced_more l)
  rw [Line.rest, Line.keywordText]
  cases l.keyword with
  | none => exact htable
  | some k =>
    have hspace : Spaced (' ' :: (l.table.chars ++ l.more)) := .inr ⟨_, rfl⟩
    have hword : k.text ≠ [] ∧ ∀ c ∈ k.text, isWhitespace c = false := by
      cases k <;> exact ⟨by decide, List.all_iff_forall_prop.mp (by decide)⟩
    rw [Option.map_some, Option.map_some, Option.getD_some, List.append_assoc, List.singleton_append,
      ← Line.more, splitWhitespace_append hword.1 hword.2 hspace, splitWhitespace_space, htable]
    rfl

theorem tableName_rest {l : Line} (h : l.TableRead) : tableName l.rest = some l.table.chars := by
  rw [tableName, splitWhitespace_rest]
  cases hk : l.keyword with
  | none =>
    obtain ⟨htable, hsubquery⟩ := h.resolve_left (not_not.mpr hk)
    exact if_neg (not_or.mpr ⟨htable, hsubquery⟩)
  | some k => cases k <;> rfl

/-- The first word behind a table begins with `U` or with a parenthesis. -/
theorem head?_splitWhitespace_more (l : Line) :
    ∀ w ∈ (splitWhitespace l.more).head?, w.head? = some 'U' ∨ w.head? = some '(' := by
  intro w hw
  rw [Line.more, Line.indexText] at hw
  cases hindex : l.index with
  | none =>
    rw [hindex, Option.map_none, Option.getD_none, List.nil_append, Line.listText] at hw
    cases hcs : l.constraints with
    | nil =>
      rw [hcs] at hw
      cases hw
    | cons c cs =>
      rw [hcs, List.isEmpty_cons, if_neg Bool.false_ne_true] at hw
      obtain ⟨v, vs, hvs⟩ := exists_words_cons (p := isWhitespace)
        (constraintText (c :: cs) ++ [')']) (show isWhitespace '(' = false by decide)
      have hwords : splitWhitespace (" (".toList ++ constraintText (c :: cs) ++ [')']) =
          ('(' :: v) :: vs := (splitWhitespace_space _).trans hvs
      rw [hwords] at hw
      obtain rfl := Option.some.inj hw
      exact .inr rfl
  | some i =>
    obtain ⟨u, hu⟩ := i.exists_text_eq
    obtain ⟨v, vs, hvs⟩ := exists_words_cons (p := isWhitespace) (u.tail ++ l.listText)
      (show isWhitespace 'U' = false by decide)
    have hcons : u = 'U' :: u.tail := by
      have htail : i.text.tail.head? = some 'U' := by
        unfold IndexUse.text
        cases i.covering <;> rfl
      rw [hu, List.tail_cons] at htail
      exact (List.cons_head?_tail htail).symm
    have hwords : splitWhitespace (i.text ++ l.listText) = ('U' :: v) :: vs := by
      rw [hu, List.cons_append, splitWhitespace_space, hcons, List.cons_append]
      exact hvs
    rw [hindex, Option.map_some, Option.getD_some, hwords] at hw
    obtain rfl := Option.some.inj hw
    exact .inl rfl

theorem tableName_rest_iff (l : Line) : tableName l.rest = some l.table.chars ↔ l.TableRead := by
  refine ⟨fun h => ?_, tableName_rest⟩
  by_contra hread
  rw [Line.TableRead, not_or, not_not] at hread
  obtain ⟨hkeyword, hword⟩ := hread
  have hfirst : l.table.chars = "TABLE".toList ∨ l.table.chars = "SUBQUERY".toList := by tauto
  rw [tableName, splitWhitespace_rest, hkeyword] at h
  simp only [Option.map_none, Option.toList_none, List.nil_append, if_pos hfirst] at h
  have hmore := head?_splitWhitespace_more l l.table.chars h
  rcases hfirst with hfirst | hfirst
  · rw [hfirst] at hmore
    revert hmore
    decide
  · rw [hfirst] at hmore
    revert hmore
    decide

/-! ### The index -/

/-- ASCII characters count one byte each. -/
theorem getFrom_append {x : Text} (hx : ∀ c ∈ x, c.utf8Size = 1) (t : Text) :
    getFrom x.length (x ++ t) = some t := by
  induction x with
  | nil => cases t <;> rfl
  | cons c x ih =>
    have hc : c.utf8Size = 1 := hx c List.mem_cons_self
    rw [List.length_cons, List.cons_append, getFrom, hc, if_pos (by omega), Nat.add_sub_cancel]
    exact ih fun d hd => hx d (List.mem_cons_of_mem c hd)

/-- Behind a keyword and a space. -/
theorem getFrom_keyword {x y : Text} (hy : y = x ++ [' ']) (hascii : ∀ c ∈ y, c.utf8Size = 1) (t : Text) :
    getFrom y.length (x ++ ' ' :: t) = some t := by
  have happend : x ++ ' ' :: t = y ++ t := by rw [hy, List.append_assoc, List.singleton_append]
  rw [happend, getFrom_append hascii]

/-- The pieces that are searched for. -/
def used (a : Text) : Text := a ++ ' ' :: "INDEX".toList

section Used

variable {a w y : Text}

theorem not_used_word (hw : ' ' ∉ w) : ¬ used a <:+: w :=
  fun h => hw (h.subset (List.mem_append_right a List.mem_cons_self))

theorem not_used_append (ha : ' ' ∉ a) (hw : ¬ used a <:+: w) (hpair : a <:+ w → ¬ "INDEX".toList <+: y)
    (hy : ¬ used a <:+: y) : ¬ used a <:+: w ++ ' ' :: y := by
  intro h
  rcases (infix_across ha (by decide)).mp h with hw' | hy' | ⟨hsuf, hpre⟩
  · exact hw hw'
  · exact hy hy'
  · exact hpair hsuf hpre

theorem not_prefix_index {d : Char} (hd : 'I' ≠ d) : ¬ "INDEX".toList <+: d :: y :=
  fun hpre => hd (List.cons_prefix_cons.mp hpre).1

/-- `USING` and `COVERING`, the words before `INDEX`. -/
def IndexWord (a : Text) : Prop := a = "USING".toList ∨ a = "COVERING".toList

theorem IndexWord.space_notMem (ha : IndexWord a) : ' ' ∉ a := by
  rcases ha with rfl | rfl <;> decide

theorem Constraint.not_used (c : Constraint) (ha : IndexWord a) : ¬ used a <:+: c.text := by
  obtain ⟨o, t, htext, hop, -⟩ := c.operator.exists_text_eq
  rw [c.text_eq, htext]
  rcases hop with hop | hop
  · rw [hop]
    refine not_used_append ha.space_notMem (not_used_word c.column.space_notMem) (fun _ => by decide) ?_
    rcases ha with rfl | rfl <;> decide
  · exact not_used_word (by rw [List.mem_append, not_or]; exact ⟨c.column.space_notMem, hop⟩)

theorem not_used_constraintText (ha : IndexWord a) (cs : List Constraint) :
    ¬ used a <:+: constraintText cs := by
  induction cs with
  | nil => exact not_used_word List.not_mem_nil
  | cons c cs ih =>
    cases cs with
    | nil => exact c.not_used ha
    | cons d cs =>
      have hand : ¬ used a <:+: "AND".toList ++ ' ' :: constraintText (d :: cs) :=
        not_used_append ha.space_notMem (not_used_word (by decide))
          (fun hsuf => absurd hsuf (by rcases ha with rfl | rfl <;> decide)) ih
      exact not_used_append ha.space_notMem (c.not_used ha)
        (fun _ => not_prefix_index (d := 'A') (by decide)) hand

/-- A name, and the constraint list behind it. -/
theorem not_used_name_listText (ha : IndexWord a) (n : Name) (l : Line) :
    ¬ used a <:+: n.chars ++ l.listText := by
  have hname : ¬ used a <:+: n.chars := not_used_word n.space_notMem
  unfold Line.listText
  cases l.constraints with
  | nil => rwa [List.isEmpty_nil, if_pos rfl, List.append_nil]
  | cons c cs =>
    have hparen : '(' ∉ used a ∧ ')' ∉ used a := by rcases ha with rfl | rfl <;> decide
    rw [List.isEmpty_cons, if_neg Bool.false_ne_true]
    refine not_used_append ha.space_notMem hname
      (fun _ => not_prefix_index (d := '(') (by decide)) ?_
    have hlist : ¬ used a <:+: [] ++ '(' :: (constraintText (c :: cs) ++ ')' :: []) := by
      rw [infix_around hparen.1, infix_around hparen.2, not_or, not_or]
      exact ⟨not_used_word List.not_mem_nil, not_used_constraintText ha (c :: cs),
        not_used_word List.not_mem_nil⟩
    exact hlist

end Used

theorem not_used_keywordText {a y : Text} (ha : IndexWord a) (l : Line) (hy : ¬ used a <:+: y) :
    ¬ used a <:+: l.keywordText ++ y := by
  unfold Line.keywordText
  cases l.keyword with
  | none => exact hy
  | some k =>
    have hk : ' ' ∉ k.text ∧ ¬ a <:+ k.text := by
      rcases ha with rfl | rfl <;> cases k <;> decide
    rw [Option.map_some, Option.getD_some, List.append_assoc]
    exact not_used_append ha.space_notMem (not_used_word hk.1) (fun hsuf => absurd hsuf hk.2) hy

/-- The text before the words of an index. -/
def Line.before (l : Line) : Text := l.keywordText ++ (l.table.chars ++ [' '])

theorem not_used_before {a y : Text} (ha : IndexWord a) (l : Line) (hpre : ¬ "INDEX".toList <+: y)
    (hy : ¬ used a <:+: y) : ¬ used a <:+: l.before ++ y := by
  rw [Line.before, List.append_assoc, List.append_assoc]
  exact not_used_keywordText ha l
    (not_used_append ha.space_notMem (not_used_word l.table.space_notMem) (fun _ => hpre) hy)

theorem usingIndex_eq : "USING INDEX".toList = used "USING".toList := by decide

theorem usingCoveringIndex_eq :
    "USING COVERING INDEX".toList = "USING ".toList ++ used "COVERING".toList := by decide

/-- Where `COVERING INDEX` does not occur, the longer words do not. -/
theorem not_usingCoveringIndex {y : Text} (hy : ¬ used "COVERING".toList <:+: y) :
    ¬ "USING COVERING INDEX".toList <:+: y := by
  rw [usingCoveringIndex_eq]
  exact fun h => hy ((List.suffix_append _ _).isInfix.trans h)

theorem head?_splitWhitespace_name (n : Name) (l : Line) :
    (splitWhitespace (n.chars ++ l.listText)).head? = some n.chars := by
  rw [splitWhitespace_name n (spaced_listText l), List.head?_cons]

theorem indexName_rest (l : Line) : indexName l.rest = l.index.map fun i => i.name.chars := by
  have husing : IndexWord "USING".toList := .inl rfl
  have hcovering : IndexWord "COVERING".toList := .inr rfl
  cases hindex : l.index with
  | none =>
    have hrest : l.rest = l.keywordText ++ (l.table.chars ++ l.listText) := by
      rw [Line.rest, Line.indexText, hindex, Option.map_none, Option.getD_none, List.nil_append]
    have hnot : ∀ a, IndexWord a → ¬ used a <:+: l.rest := fun a ha => by
      rw [hrest]
      exact not_used_keywordText ha l (not_used_name_listText ha l.table l)
    rw [indexName, usingIndex_eq, find_eq_none_iff.mpr (hnot _ husing),
      find_eq_none_iff.mpr (not_usingCoveringIndex (hnot _ hcovering))]
    rfl
  | some i =>
    cases hi : i.covering with
    | false =>
      have hrest : l.rest = l.before ++ "USING INDEX".toList ++ ' ' :: (i.name.chars ++ l.listText) := by
        rw [Line.rest, Line.indexText, hindex, Option.map_some, Option.getD_some, IndexUse.text, hi,
          Line.before]
        simp only [List.append_assoc]
        rfl
      -- the name of the table and the keyword do not contain the words searched for
      have hfind : find "USING INDEX".toList l.rest = some l.before.length := by
        rw [hrest]
        refine find_append ?_
        rw [usingIndex_eq]
        exact not_used_before husing l (by decide) (by decide)
      have hget := getFrom_keyword (x := "USING INDEX".toList) (y := "USING INDEX ".toList) (by decide)
        (List.all_iff_forall_prop.mp (by decide)) (i.name.chars ++ l.listText)
      have hcov : "USING COVERING INDEX".toList.isPrefixOf
          ("USING INDEX".toList ++ ' ' :: (i.name.chars ++ l.listText)) = false := rfl
      rw [indexName, hfind, Option.some_or, hrest, List.append_assoc]
      simp only [List.drop_left, hcov, Bool.false_eq_true, if_false, hget, Option.bind_some,
        head?_splitWhitespace_name, Option.map_some]
    | true =>
      have hrest : l.rest =
          l.before ++ "USING COVERING INDEX".toList ++ ' ' :: (i.name.chars ++ l.listText) := by
        rw [Line.rest, Line.indexText, hindex, Option.map_some, Option.getD_some, IndexUse.text, hi,
          Line.before]
        simp only [List.append_assoc]
        rfl
      -- `USING INDEX` is not found: the word between the two separates them
      have hnone : find "USING INDEX".toList l.rest = none := by
        rw [hrest, find_eq_none_iff, usingIndex_eq, List.append_assoc]
        have hname := not_used_name_listText husing i.name l
        have hindexWord : ¬ used "USING".toList <:+:
            "INDEX".toList ++ ' ' :: (i.name.chars ++ l.listText) :=
          not_used_append husing.space_notMem (not_used_word (by decide))
            (fun hsuf => absurd hsuf (by decide)) hname
        have hcoveringWord : ¬ used "USING".toList <:+: "COVERING".toList ++ ' ' :: ("INDEX".toList ++
            ' ' :: (i.name.chars ++ l.listText)) :=
          not_used_append husing.space_notMem (not_used_word (by decide))
            (fun hsuf => absurd hsuf (by decide)) hindexWord
        have husingWord : ¬ used "USING".toList <:+: "USING".toList ++ ' ' :: ("COVERING".toList ++
            ' ' :: ("INDEX".toList ++ ' ' :: (i.name.chars ++ l.listText))) :=
          not_used_append husing.space_notMem (not_used_word (by decide))
            (fun _ => not_prefix_index (d := 'C') (by decide)) hcoveringWord
        exact not_used_before husing l (not_prefix_index (d := 'U') (by decide)) husingWord
      have hfind : find "USING COVERING INDEX".toList l.rest = some l.before.length := by
        rw [hrest]
        exact find_append (not_usingCoveringIndex (not_used_before hcovering l (by decide) (by decide)))
      have hget := getFrom_keyword (x := "USING COVERING INDEX".toList)
        (y := "USING COVERING INDEX ".toList) (by decide) (List.all_iff_forall_prop.mp (by decide))
        (i.name.chars ++ l.listText)
      have hcov : "USING COVERING INDEX".toList.isPrefixOf
          ("USING COVERING INDEX".toList ++ ' ' :: (i.name.chars ++ l.listText)) = true := rfl
      rw [indexName, hnone, hfind, Option.none_or, hrest, List.append_assoc]
      simp only [List.drop_left, hcov, if_true, hget, Option.bind_some, head?_splitWhitespace_name,
        Option.map_some]

/-! ### The token -/

namespace Line

/-- One of the names of the line has the word `SCAN` in it. -/
def MentionsScan (l : Line) : Prop :=
  "SCAN".toList <:+: l.table.chars ∨ (∃ i ∈ l.index, "SCAN".toList <:+: i.name.chars) ∨
    ∃ c ∈ l.constraints, "SCAN".toList <:+: c.column.chars

/-- Nothing is left of the line behind the `SCAN` in the name of its table that would name one. -/
def Silent (l : Line) : Prop :=
  l.index = none ∧ l.constraints = [] ∧ ∃ pos ∈ find "SCAN".toList l.table.chars,
    l.table.chars.drop (pos + 4) ∈ [[], "TABLE".toList, "SUBQUERY".toList]

/-- The parser takes the line for what it is. -/
def Readable (l : Line) : Prop :=
  (l.accessType = .search → l.MentionsScan → l.Silent) ∧
    (l.accessType = .scan ∨ l.index ≠ none → l.TableRead ∧ ∀ c ∈ l.constraints, c.Readable)

instance decidableConstraint (c : Constraint) : Decidable c.Readable := inferInstanceAs (Decidable (_ ∧ _))

instance decidableLine (l : Line) : Decidable l.Readable :=
  have : Decidable l.MentionsScan := inferInstanceAs (Decidable (_ ∨ _ ∨ _))
  have : Decidable l.Silent := inferInstanceAs (Decidable (_ ∧ _ ∧ _))
  have : Decidable l.TableRead := inferInstanceAs (Decidable (_ ∨ _ ∧ _))
  inferInstanceAs (Decidable ((_ → _ → _) ∧ (_ ∨ _ → _ ∧ _)))

end Line

theorem scan_infix_constraint (c : Constraint) :
    "SCAN".toList <:+: c.text ↔ "SCAN".toList <:+: c.column.chars := by
  obtain ⟨o, t, htext, -, -, -, ho, ht⟩ := c.operator.exists_text_eq
  rw [c.text_eq, htext, infix_around ho, or_iff_left ht]

theorem scan_infix_constraintText (cs : List Constraint) :
    "SCAN".toList <:+: constraintText cs ↔ ∃ c ∈ cs, "SCAN".toList <:+: c.column.chars := by
  induction cs with
  | nil => simp [constraintText]
  | cons c cs ih =>
    cases cs with
    | nil => simpa [constraintText] using scan_infix_constraint c
    | cons d cs =>
      have hand : "SCAN".toList <:+: c.text ++ ' ' :: ("AND".toList ++ ' ' :: constraintText (d :: cs)) ↔
          "SCAN".toList <:+: c.text ∨ "SCAN".toList <:+: constraintText (d :: cs) := by
        rw [infix_around (by decide), infix_around (by decide), or_iff_right (a := _ <:+: "AND".toList)
          (by decide)]
      rw [List.exists_mem_cons_iff, ← ih, ← scan_infix_constraint]
      exact hand

theorem scan_infix_listText (l : Line) :
    "SCAN".toList <:+: l.listText ↔ ∃ c ∈ l.constraints, "SCAN".toList <:+: c.column.chars := by
  rw [← scan_infix_constraintText, Line.listText]
  cases l.constraints with
  | nil => rfl
  | cons c cs =>
    have hlist : "SCAN".toList <:+: [' '] ++ '(' :: (constraintText (c :: cs) ++ ')' :: []) ↔
        "SCAN".toList <:+: constraintText (c :: cs) := by
      rw [infix_around (by decide), infix_around (by decide), or_iff_right (a := _ <:+: [' '])
        (by decide), or_iff_left (by decide)]
    exact hlist

theorem scan_infix_spaced {x y : Text} (hy : Spaced y) :
    "SCAN".toList <:+: x ++ y ↔ "SCAN".toList <:+: x ∨ "SCAN".toList <:+: y := by
  rcases hy with rfl | ⟨u, rfl⟩
  · rw [List.append_nil, or_iff_left (by decide)]
  · have hu : "SCAN".toList <:+: [] ++ ' ' :: u ↔ "SCAN".toList <:+: u := by
      rw [infix_around (by decide), or_iff_right (by decide)]
    rw [infix_around (by decide), ← hu]
    rfl

theorem scan_infix_indexText (l : Line) :
    "SCAN".toList <:+: l.indexText ↔ ∃ i ∈ l.index, "SCAN".toList <:+: i.name.chars := by
  rw [Line.indexText]
  cases l.index with
  | none => simp
  | some i =>
    have hname : ∀ w y : Text, y = w ++ [' '] → ¬ "SCAN".toList <:+: w →
        ("SCAN".toList <:+: y ++ i.name.chars ↔ "SCAN".toList <:+: i.name.chars) := by
      intro w y hy hw
      rw [hy, List.append_assoc, List.singleton_append, infix_around (by decide), or_iff_right hw]
    have htext : "SCAN".toList <:+: i.text ↔ "SCAN".toList <:+: i.name.chars := by
      unfold IndexUse.text
      cases i.covering with
      | false => exact hname " USING INDEX".toList _ (by decide) (by decide)
      | true => exact hname " USING COVERING INDEX".toList _ (by decide) (by decide)
    simpa using htext

theorem scan_infix_text (l : Line) (hl : l.accessType = .search) :
    "SCAN".toList <:+: l.text ↔ l.MentionsScan := by
  have hkeyword : ∀ y : Text, "SCAN".toList <:+: l.keywordText ++ y ↔ "SCAN".toList <:+: y := by
    intro y
    unfold Line.keywordText
    cases l.keyword with
    | none => rfl
    | some k =>
      rw [Option.map_some, Option.getD_some, List.append_assoc]
      exact (infix_around (by decide)).trans (or_iff_right (by cases k <;> decide))
  rw [Line.text, hl, infix_around (by decide), or_iff_right (by decide), Line.rest, hkeyword,
    ← Line.more, scan_infix_spaced (spaced_more l), Line.more, scan_infix_spaced (spaced_listText l),
    scan_infix_indexText, scan_infix_listText, Line.MentionsScan]

theorem accessToken_scan {l : Line} (hl : l.accessType = .scan) :
    accessToken l.text = some (.scan, ' ' :: l.rest) := by
  have hfind : find "SCAN".toList l.text = some 0 := by
    rw [Line.text, hl]
    exact find_prefix
  rw [accessToken, hfind, Line.text, hl]
  rfl

theorem accessToken_search {l : Line} (hl : l.accessType = .search) (hscan : ¬ l.MentionsScan) :
    accessToken l.text = some (.search, ' ' :: l.rest) := by
  have hnone : find "SCAN".toList l.text = none := by
    rw [find_eq_none_iff, scan_infix_text l hl]
    exact hscan
  have hfind : find "SEARCH".toList l.text = some 0 := by
    rw [Line.text, hl]
    exact find_prefix
  rw [accessToken, hnone, hfind, Line.text, hl]
  rfl

/-- A line that mentions a scan is taken for one. -/
theorem accessToken_mentionsScan {l : Line} (hl : l.accessType = .search) (hscan : l.MentionsScan) :
    ∃ rest, accessToken l.text = some (.scan, rest) ∧ ∃ p, l.text = p ++ "SCAN".toList ++ rest := by
  obtain ⟨p, s, h⟩ := (scan_infix_text l hl).mpr hscan
  obtain ⟨k, hk, -⟩ := find_le h.symm
  obtain ⟨⟨q, t, ht, rfl⟩, -⟩ := find_eq_some_iff.mp hk
  refine ⟨t, ?_, q, ht⟩
  have hdrop : l.text.drop (q.length + 4) = t := by
    have hlen : q.length + 4 = (q ++ "SCAN".toList).length := by
      rw [List.length_append]
      rfl
    rw [ht, hlen, List.drop_left]
  rw [accessToken, hk]
  exact congrArg (fun u => some (AccessType.scan, u)) hdrop

/-! ### One line -/

theorem trim_of_words {a b x y t : Text} (hfront : t = a ++ x) (hback : t = y ++ b) (ha : a ≠ [])
    (hb : b ≠ []) (haw : ∀ c ∈ a, isWhitespace c = false) (hbw : ∀ c ∈ b, isWhitespace c = false) :
    trim t = t := by
  refine trim_eq_self (fun c hc => haw c ?_) fun c hc => hbw c ?_
  · rw [hfront, List.head?_append_of_ne_nil a ha] at hc
    exact List.mem_of_head? hc
  · rw [hback, List.getLast?_append_of_ne_nil y hb] at hc
    exact List.mem_of_getLast? hc

/-- A line ends with a name or with a parenthesis. -/
theorem exists_rest_eq_append (l : Line) :
    ∃ y b, l.rest = y ++ b ∧ b ≠ [] ∧ ∀ c ∈ b, isWhitespace c = false := by
  rw [Line.rest_eq_head, Line.listText]
  cases l.constraints with
  | cons c cs =>
    exact ⟨l.head ++ (" (".toList ++ constraintText (c :: cs)), [')'],
      (List.append_assoc l.head _ [')']).symm, by decide, List.all_iff_forall_prop.mp (by decide)⟩
  | nil =>
    rw [List.isEmpty_nil, if_pos rfl, List.append_nil, Line.head, Line.indexText]
    cases l.index with
    | none =>
      exact ⟨l.keywordText, l.table.chars, by rw [Option.map_none, Option.getD_none, List.append_nil],
        l.table.nonempty, l.table.isWhitespace_eq_false⟩
    | some i =>
      exact ⟨_, i.name.chars, by
        rw [Option.map_some, Option.getD_some, IndexUse.text, ← List.append_assoc,
          ← List.append_assoc], i.name.nonempty, i.name.isWhitespace_eq_false⟩

theorem trim_rest (l : Line) : trim l.rest = l.rest := by
  obtain ⟨a, x, hfront, ha, haw⟩ :
      ∃ a x, l.rest = a ++ x ∧ a ≠ [] ∧ ∀ c ∈ a, isWhitespace c = false := by
    rw [Line.rest, Line.keywordText]
    cases l.keyword with
    | none => exact ⟨l.table.chars, _, rfl, l.table.nonempty, l.table.isWhitespace_eq_false⟩
    | some k =>
      refine ⟨k.text, _, List.append_assoc _ _ _, ?_⟩
      cases k <;> exact ⟨by decide, List.all_iff_forall_prop.mp (by decide)⟩
  obtain ⟨y, b, hback, hb, hbw⟩ := exists_rest_eq_append l
  exact trim_of_words hfront hback ha hb haw hbw

namespace Line

/-- The columns as they are read. -/
def readColumns (l : Line) : List Text :=
  (l.constraints.map Constraint.readColumn).filter (!·.isEmpty)

/-- An access as it is read, with the table as it is read. -/
def readAccess (l : Line) (table tree : Text) : PlannedAccess :=
  { treeName := tree, accessType := l.accessType, tableName := some table,
    constraintColumns := l.readColumns }

end Line

theorem restAccesses_rest (l : Line) :
    restAccesses l.accessType l.rest = (tableName l.rest).elim [] fun table =>
      (if l.accessType = .scan then [l.readAccess table table] else []) ++
        (l.index.map fun i => l.readAccess table i.name.chars).toList := by
  rw [restAccesses, l.extractConstraintColumns_rest, indexName_rest]
  cases tableName l.rest with
  | none => rfl
  | some table =>
    simp only [Option.map_map]
    rfl

/-- A line whose token is its own. -/
theorem lineAccesses_own {line : Text} {l : Line} (ht : trim line = l.text)
    (hown : l.accessType = .search → ¬ l.MentionsScan) :
    lineAccesses line = restAccesses l.accessType l.rest := by
  have htoken : accessToken l.text = some (l.accessType, ' ' :: l.rest) := by
    cases hl : l.accessType with
    | scan => exact accessToken_scan hl
    | search => exact accessToken_search hl (hown hl)
  rw [lineAccesses, ht, htoken]
  exact congrArg (restAccesses l.accessType) (trim_space.trans (trim_rest l))

theorem readColumns_eq_iff (l : Line) :
    l.readColumns = l.constraints.map (fun c => c.column.chars) ↔ ∀ c ∈ l.constraints, c.Readable :=
  filter_readColumn_eq_iff l.constraints

theorem readAccess_eq {l : Line} (h : ∀ c ∈ l.constraints, c.Readable) (tree : Name) :
    l.readAccess l.table.chars tree.chars = l.access tree := by
  rw [Line.readAccess, Line.access, (readColumns_eq_iff l).mpr h]

/-- Without index and list, the token found in the table leaves the rest of its name. -/
theorem accessToken_table {l : Line} (hl : l.accessType = .search) (hindex : l.index = none)
    (hcs : l.constraints = []) {pos : Nat} (hpos : find "SCAN".toList l.table.chars = some pos) :
    accessToken l.text = some (.scan, l.table.chars.drop (pos + 4)) := by
  have hrest : l.rest = l.keywordText ++ l.table.chars := by
    rw [Line.rest, Line.indexText, hindex, Line.listText, hcs, Option.map_none, Option.getD_none,
      List.isEmpty_nil, if_pos rfl, List.append_nil, List.append_nil]
  have hkeyword : find "SCAN".toList l.rest = some (l.keywordText.length + pos) := by
    rw [hrest, Line.keywordText]
    cases l.keyword with
    | none => rw [Option.map_none, Option.getD_none, List.nil_append, hpos, List.length_nil, Nat.zero_add]
    | some k =>
      rw [Option.map_some, Option.getD_some, List.append_assoc, List.singleton_append,
        find_behind (by decide) (by cases k <;> decide), hpos, Option.map_some, List.length_append]
      rfl
  have hfind : find "SCAN".toList l.text = some ("SEARCH ".toList.length + (l.keywordText.length + pos)) := by
    rw [Line.text, hl, find_behind (by decide) (by decide), hkeyword]
    rfl
  have htext : l.text = "SEARCH ".toList ++ (l.keywordText ++ l.table.chars) := by
    rw [Line.text, hl, hrest]
    rfl
  rw [accessToken, hfind]
  refine congrArg (fun u => some (AccessType.scan, u)) ?_
  rw [htext, Nat.add_assoc, Nat.add_assoc, List.drop_length_add_append, List.drop_length_add_append]

theorem tableName_word {w : Text} (hw : ∀ c ∈ w, isWhitespace c = false) :
    tableName w = none ↔ w ∈ [[], "TABLE".toList, "SUBQUERY".toList] := by
  cases w with
  | nil => exact iff_of_true rfl List.mem_cons_self
  | cons c w =>
    rw [tableName, splitWhitespace, words_of_word (List.cons_ne_nil c w) hw]
    by_cases h : c :: w = "TABLE".toList ∨ c :: w = "SUBQUERY".toList
    · simp only [if_pos h, List.head?_nil, true_iff]
      exact List.mem_cons_of_mem _ (by simpa using h)
    · simp only [if_neg h, reduceCtorEq, false_iff]
      simpa using h

theorem restAccesses_eq_nil_iff {rest : Text} :
    restAccesses .scan rest = [] ↔ tableName rest = none := by
  rw [restAccesses]
  cases tableName rest <;> simp

/-- What a line without index and list leaves behind the token found in its table. -/
theorem lineAccesses_table {line : Text} {l : Line} (ht : trim line = l.text)
    (hl : l.accessType = .search) (hindex : l.index = none) (hcs : l.constraints = [])
    (hscan : l.MentionsScan) : lineAccesses line = [] ↔ l.Silent := by
  obtain ⟨pos, hpos⟩ : ∃ pos, find "SCAN".toList l.table.chars = some pos := by
    cases hfind : find "SCAN".toList l.table.chars with
    | some pos => exact ⟨pos, rfl⟩
    | none =>
      rw [find_eq_none_iff] at hfind
      rcases hscan with htable | ⟨i, hi, -⟩ | ⟨c, hc, -⟩
      · exact absurd htable hfind
      · rw [hindex] at hi
        cases hi
      · rw [hcs] at hc
        cases hc
  have hplain : ∀ c ∈ l.table.chars.drop (pos + 4), isWhitespace c = false :=
    fun c hc => l.table.isWhitespace_eq_false c (List.mem_of_mem_drop hc)
  rw [lineAccesses, ht, accessToken_table hl hindex hcs hpos]
  simp only [trim_of_forall hplain, restAccesses_eq_nil_iff, tableName_word hplain, Line.Silent, hindex,
    hcs, hpos, true_and, Option.mem_some, exists_eq_left']

/-- Behind the token found in a line with a constraint list there is a table to be read. -/
theorem lineAccesses_list {line : Text} {l : Line} (ht : trim line = l.text)
    (hl : l.accessType = .search) (hcs : l.constraints ≠ []) (hscan : l.MentionsScan) :
    lineAccesses line ≠ [] := by
  obtain ⟨rest, htoken, p, hp⟩ := accessToken_mentionsScan hl hscan
  have hmem : ')' ∈ rest := by
    have hlast : l.text.getLast? = some ')' := by
      obtain ⟨c, cs, hc⟩ := List.exists_cons_of_ne_nil hcs
      rw [Line.text, Line.rest_eq_head, Line.listText, hc, List.isEmpty_cons,
        if_neg Bool.false_ne_true, ← List.append_assoc, ← List.cons_append, ← List.append_assoc,
        List.getLast?_concat]
    rw [hp] at hlast
    cases rest with
    | nil =>
      rw [List.append_nil, List.getLast?_append_of_ne_nil p (by decide)] at hlast
      exact absurd hlast (by decide)
    | cons d t =>
      rw [List.getLast?_append_of_ne_nil _ (List.cons_ne_nil d t)] at hlast
      exact List.mem_of_getLast? hlast
  obtain ⟨w, hw, hcw⟩ := exists_mem_words (p := isWhitespace) (mem_trim hmem (by decide)) (by decide)
  rw [lineAccesses, ht, htoken]
  simp only [ne_eq, restAccesses_eq_nil_iff]
  intro hnone
  rw [tableName] at hnone
  cases hwords : splitWhitespace (trim rest) with
  | nil =>
    rw [splitWhitespace] at hwords
    rw [hwords] at hw
    cases hw
  | cons first more =>
    rw [hwords] at hnone
    simp only at hnone
    split at hnone
    · rename_i hfirst
      rw [List.head?_eq_none_iff] at hnone
      rw [splitWhitespace, hnone] at hwords
      rw [hwords, List.mem_singleton] at hw
      rw [hw] at hcw
      rcases hfirst with rfl | rfl <;> exact absurd hcw (by decide)
    · cases hnone

theorem lineAccesses_readable {line : Text} {l : Line} (ht : trim line = l.text) (hl : l.Readable) :
    lineAccesses line = l.accesses := by
  by_cases hscan : l.accessType = .search ∧ l.MentionsScan
  · obtain ⟨hsearch, hmentions⟩ := hscan
    have hsilent := hl.1 hsearch hmentions
    rw [(lineAccesses_table ht hsearch hsilent.1 hsilent.2.1 hmentions).mpr hsilent, Line.accesses,
      hsearch, hsilent.1]
    rfl
  · rw [lineAccesses_own ht fun hsearch hmentions => hscan ⟨hsearch, hmentions⟩, restAccesses_rest,
      Line.accesses]
    by_cases hneed : l.accessType = .scan ∨ l.index ≠ none
    · obtain ⟨htable, hcolumns⟩ := hl.2 hneed
      simp only [tableName_rest htable, Option.elim_some, readAccess_eq hcolumns]
    · rw [not_or, not_not] at hneed
      rw [hneed.2, if_neg hneed.1]
      cases tableName l.rest with
      | none => simp [hneed.1]
      | some table => simp [hneed.1]

/-! ### The text -/

/-- `seen` holds the keys of the accesses. -/
def Found.Tracks (f : Found) : Prop :=
  ∀ k, k ∈ f.seen ↔ ∃ a ∈ f.accesses, (a.treeName, a.accessType) = k

theorem sameTree_iff {a b : PlannedAccess} :
    sameTree a b = true ↔ (b.treeName, b.accessType) = (a.treeName, a.accessType) := by
  rw [sameTree, Bool.and_eq_true, beq_iff_eq, beq_iff_eq, Prod.mk.injEq, eq_comm,
    @eq_comm _ a.accessType]

theorem Found.Tracks.insert {f : Found} (hf : f.Tracks) (a : PlannedAccess) : (f.insert a).Tracks := by
  unfold Found.insert
  split
  · exact hf
  · intro k
    simp only [List.mem_cons, List.mem_append, List.mem_nil_iff, or_false, hf k]
    grind

theorem foldl_insert (as : List PlannedAccess) {f : Found} (hf : f.Tracks) :
    (as.foldl Found.insert f).accesses = List.eraseDupsBy.loop sameTree as f.accesses.reverse := by
  induction as generalizing f with
  | nil => simp [List.eraseDupsBy.loop]
  | cons a as ih =>
    have hany : f.accesses.reverse.any (sameTree a) = true ↔ (a.treeName, a.accessType) ∈ f.seen := by
      simp only [List.any_eq_true, List.mem_reverse, sameTree_iff, hf (a.treeName, a.accessType)]
    rw [List.foldl_cons, ih (hf.insert a), List.eraseDupsBy.loop]
    by_cases hseen : (a.treeName, a.accessType) ∈ f.seen
    · rw [hany.mpr hseen, Found.insert, if_pos hseen]
    · rw [Bool.eq_false_iff.mpr fun h => hseen (hany.mp h), Found.insert, if_neg hseen,
        List.reverse_concat]

/-- The loop keeps the first access of every type to every tree. -/
theorem parseEqpOutput_eq (eqpText : Text) :
    parseEqpOutput eqpText = ((lines eqpText).flatMap lineAccesses).eraseDupsBy sameTree := by
  rw [parseEqpOutput, ← List.foldl_flatMap]
  exact foldl_insert _ fun k => by simp

/-- The trimmed lines of the text are these. -/
def Shows (eqpText : Text) (ls : List Line) : Prop := (lines eqpText).map trim = ls.map Line.text

instance decidableShows (eqpText : Text) (ls : List Line) : Decidable (Shows eqpText ls) :=
  inferInstanceAs (Decidable (_ = _))

/-- The text that `run_eqp_and_parse` hands over. -/
def eqpOutput (details : List Text) : Text := details.flatMap (· ++ ['\n'])

theorem linesFrom_append {cur t : Text} (u : Text) (ht : '\n' ∉ t) :
    linesFrom cur (t ++ '\n' :: u) = stripCr (cur ++ t) :: linesFrom [] u := by
  induction t generalizing cur with
  | nil => rw [List.nil_append, linesFrom, if_pos rfl, List.append_nil]
  | cons c t ih =>
    have hc : c ≠ '\n' := fun h => ht (h ▸ List.mem_cons_self)
    rw [List.cons_append, linesFrom, if_neg hc, ih fun h => ht (List.mem_cons_of_mem c h),
      List.append_assoc, List.singleton_append]

theorem newline_notMem_constraintText (cs : List Constraint) : '\n' ∉ constraintText cs := by
  have hone : ∀ c : Constraint, '\n' ∉ c.text := by
    intro c
    rw [c.text_eq, List.mem_append, not_or]
    exact ⟨c.column.notMem_of_isWhitespace (by decide), by cases c.operator <;> decide⟩
  induction cs with
  | nil => exact List.not_mem_nil
  | cons c cs ih =>
    cases cs with
    | nil => exact hone c
    | cons d cs =>
      rw [constraintText_cons, List.mem_append, List.mem_append, not_or, not_or]
      exact ⟨hone c, by decide, ih⟩

theorem newline_notMem_text (l : Line) : '\n' ∉ l.text := by
  have hname : ∀ n : Name, '\n' ∉ n.chars := fun n => n.notMem_of_isWhitespace (by decide)
  have hlist : '\n' ∉ l.listText := by
    unfold Line.listText
    cases l.constraints with
    | nil => exact List.not_mem_nil
    | cons c cs => simpa using newline_notMem_constraintText (c :: cs)
  have hindex : '\n' ∉ l.indexText := by
    unfold Line.indexText
    cases l.index with
    | none => exact List.not_mem_nil
    | some i =>
      rw [Option.map_some, Option.getD_some, IndexUse.text, List.mem_append, not_or]
      exact ⟨by cases i.covering <;> decide, hname i.name⟩
  have hkeyword : '\n' ∉ l.keywordText := by
    unfold Line.keywordText
    cases l.keyword with
    | none => exact List.not_mem_nil
    | some k => cases k <;> decide
  have htype : '\n' ∉ l.accessType.text := by cases l.accessType <;> decide
  rw [Line.text, Line.rest]
  simp [htype, hkeyword, hname, hindex, hlist]

theorem exists_text_eq_append (l : Line) :
    ∃ y b, l.text = y ++ b ∧ b ≠ [] ∧ ∀ c ∈ b, isWhitespace c = false := by
  obtain ⟨y, b, hback, hb, hbw⟩ := exists_rest_eq_append l
  exact ⟨l.accessType.text ++ ' ' :: y, b, by rw [Line.text, hback, List.append_assoc]; rfl, hb, hbw⟩

theorem trim_text (l : Line) : trim l.text = l.text := by
  obtain ⟨y, b, hback, hb, hbw⟩ := exists_text_eq_append l
  have htype : l.accessType.text ≠ [] ∧ ∀ c ∈ l.accessType.text, isWhitespace c = false := by
    cases l.accessType <;> exact ⟨by decide, List.all_iff_forall_prop.mp (by decide)⟩
  exact trim_of_words rfl hback htype.1 hb htype.2 hbw

theorem stripCr_text (l : Line) : stripCr l.text = l.text := by
  obtain ⟨y, b, hback, hb, hbw⟩ := exists_text_eq_append l
  refine if_neg fun hlast => ?_
  rw [hback, List.getLast?_append_of_ne_nil y hb] at hlast
  exact absurd (hbw _ (List.mem_of_getLast? hlast)) (by decide)

/-- Every list of lines is shown by the text that is handed over. -/
theorem shows_eqpOutput (ls : List Line) : Shows (eqpOutput (ls.map Line.text)) ls := by
  have hlines : lines (eqpOutput (ls.map Line.text)) = ls.map Line.text := by
    induction ls with
    | nil => rfl
    | cons l ls ih =>
      rw [List.map_cons, eqpOutput, List.flatMap_cons, List.append_assoc, lines, List.singleton_append,
        linesFrom_append _ (newline_notMem_text l), List.nil_append, stripCr_text]
      exact congrArg (l.text :: ·) ih
  rw [Shows, hlines, List.map_map]
  exact List.map_congr_left fun l _ => trim_text l

theorem flatMap_lineAccesses {ts : List Text} {ls : List Line} (h : ts.map trim = ls.map Line.text)
    (hl : ∀ l ∈ ls, l.Readable) : ts.flatMap lineAccesses = ls.flatMap Line.accesses := by
  induction ls generalizing ts with
  | nil =>
    rw [List.map_eq_nil_iff.mp h]
    rfl
  | cons l ls ih =>
    obtain ⟨t, ts, rfl⟩ := List.exists_cons_of_ne_nil (l := ts) (by rintro rfl; cases h)
    obtain ⟨ht, hts⟩ := List.cons.inj h
    rw [List.flatMap_cons, List.flatMap_cons, lineAccesses_readable ht (hl l List.mem_cons_self),
      ih hts fun l' hl' => hl l' (List.mem_cons_of_mem l hl')]

theorem head?_eraseDupsBy (as : List PlannedAccess) : (as.eraseDupsBy sameTree).head? = as.head? := by
  cases as with
  | nil => rfl
  | cons a as => rw [List.eraseDupsBy_cons, List.head?_cons, List.head?_cons]

theorem accessType_of_mem_restAccesses {ty : AccessType} {rest : Text} {a : PlannedAccess}
    (ha : a ∈ restAccesses ty rest) : a.accessType = ty := by
  rw [restAccesses] at ha
  cases htable : tableName rest with
  | none =>
    rw [htable] at ha
    cases ha
  | some table =>
    simp only [htable, List.mem_append, List.mem_ite_nil_right, List.mem_singleton,
      Option.mem_toList, Option.map_eq_some_iff] at ha
    rcases ha with ⟨-, rfl⟩ | ⟨tree, -, rfl⟩ <;> rfl

theorem mem_accesses {l : Line} {a : PlannedAccess} (ha : a ∈ l.accesses) :
    ∃ tree, a = l.access tree := by
  simp only [Line.accesses, List.mem_append, List.mem_ite_nil_right, List.mem_singleton,
    Option.mem_toList, Option.map_eq_some_iff] at ha
  rcases ha with ⟨-, rfl⟩ | ⟨i, -, rfl⟩ <;> exact ⟨_, rfl⟩

theorem exists_head?_accesses {l : Line} (hneed : l.accessType = .scan ∨ l.index ≠ none) :
    ∃ tree, l.accesses.head? = some (l.access tree) := by
  have hne : l.accesses ≠ [] := by
    unfold Line.accesses
    rcases hneed with hscan | hindex
    · simp [hscan]
    · obtain ⟨i, hi⟩ := Option.ne_none_iff_exists'.mp hindex
      simp [hi]
  obtain ⟨a, as, has⟩ := List.exists_cons_of_ne_nil hne
  obtain ⟨tree, rfl⟩ := mem_accesses (has ▸ List.mem_cons_self)
  exact ⟨tree, by rw [has, List.head?_cons]⟩

/-- A line whose first access is read is readable. -/
theorem readable_of_head {line : Text} {l : Line} (ht : trim line = l.text)
    (h : (lineAccesses line).head? = l.accesses.head?) : l.Readable := by
  by_cases hscan : l.accessType = .search ∧ l.MentionsScan
  · obtain ⟨hsearch, hmentions⟩ := hscan
    by_cases hindex : l.index = none
    · have hnil : lineAccesses line = [] := by
        rw [Line.accesses, hsearch, hindex] at h
        exact List.head?_eq_none_iff.mp h
      by_cases hcs : l.constraints = []
      · have hsilent := (lineAccesses_table ht hsearch hindex hcs hmentions).mp hnil
        exact ⟨fun _ _ => hsilent, fun hneed => by simp [hsearch, hindex] at hneed⟩
      · exact absurd hnil (lineAccesses_list ht hsearch hcs hmentions)
    · -- what is read is a scan, and the line stands for a search
      obtain ⟨tree, htree⟩ := exists_head?_accesses (.inr hindex)
      obtain ⟨rest, htoken, -⟩ := accessToken_mentionsScan hsearch hmentions
      rw [htree, lineAccesses, ht, htoken] at h
      have htype := accessType_of_mem_restAccesses (List.mem_of_head? h)
      rw [Line.access, hsearch] at htype
      cases htype
  · have hown : l.accessType = .search → ¬ l.MentionsScan := fun hsearch hm => hscan ⟨hsearch, hm⟩
    refine ⟨fun hsearch hm => absurd hm (hown hsearch), fun hneed => ?_⟩
    obtain ⟨tree, htree⟩ := exists_head?_accesses hneed
    rw [lineAccesses_own ht hown, restAccesses_rest, htree] at h
    cases htable : tableName l.rest with
    | none =>
      rw [htable] at h
      cases h
    | some table =>
      rw [htable, Option.elim_some] at h
      have hmem := List.mem_of_head? h
      simp only [List.mem_append, List.mem_ite_nil_right, List.mem_singleton, Option.mem_toList,
        Option.map_eq_some_iff] at hmem
      have hread : some table = some l.table.chars ∧
          l.readColumns = l.constraints.map fun c => c.column.chars := by
        rcases hmem with ⟨-, heq⟩ | ⟨i, -, heq⟩
        · exact ⟨(congrArg PlannedAccess.tableName heq).symm,
            (congrArg PlannedAccess.constraintColumns heq).symm⟩
        · exact ⟨congrArg PlannedAccess.tableName heq, congrArg PlannedAccess.constraintColumns heq⟩
      exact ⟨(tableName_rest_iff l).mp (htable.trans hread.1), (readColumns_eq_iff l).mp hread.2⟩

/-- **The parser.** A text whose lines are all readable gives exactly the accesses the lines stand for,
in order of first occurrence; and a text of one line does so only when the line is readable. -/
theorem parseEqpOutput_planned (eqpText : Text) :
    (∀ ls, Shows eqpText ls → (∀ l ∈ ls, l.Readable) → parseEqpOutput eqpText = planned ls) ∧
      ∀ l, Shows eqpText [l] → (parseEqpOutput eqpText = planned [l] ↔ l.Readable) := by
  have hall : ∀ ls, Shows eqpText ls → (∀ l ∈ ls, l.Readable) →
      parseEqpOutput eqpText = planned ls := by
    intro ls hshows hls
    rw [parseEqpOutput_eq, flatMap_lineAccesses hshows hls, planned]
  refine ⟨hall, fun l hshows => ⟨fun heq => ?_, fun hl => ?_⟩⟩
  · obtain ⟨line, hline, ht⟩ := List.map_eq_singleton_iff.mp hshows
    refine readable_of_head ht ?_
    rw [parseEqpOutput_eq, hline, planned, List.flatMap_singleton, List.flatMap_singleton] at heq
    rw [← head?_eraseDupsBy, heq, head?_eraseDupsBy]
  · exact hall [l] hshows (by simpa using hl)

/-- A name is checked character by character. -/
theorem plain_of_all {t : Text}
    (h : t.all (fun c => decide (isWhitespace c = false ∧ c ≠ '(' ∧ c ≠ ')')) = true) :
    ∀ c ∈ t, isWhitespace c = false ∧ c ≠ '(' ∧ c ≠ ')' := List.all_iff_forall_prop.mp h

theorem parseEqpOutput_planned_orders :
    ∃ ls, Shows "SCAN TABLE SCANS\n  SEARCH t USING INDEX i (a=? AND b IS ?)\nSCAN SCANS".toList ls ∧
      parseEqpOutput "SCAN TABLE SCANS\n  SEARCH t USING INDEX i (a=? AND b IS ?)\nSCAN SCANS".toList =
        planned ls ∧ (planned ls).length = 2 := by
  have hread := (parseEqpOutput_planned
    "SCAN TABLE SCANS\n  SEARCH t USING INDEX i (a=? AND b IS ?)\nSCAN SCANS".toList).1
    [⟨.scan, some .table, ⟨"SCANS".toList, by decide +kernel, plain_of_all (by decide +kernel)⟩, none, []⟩,
      ⟨.search, none, ⟨['t'], by decide, plain_of_all (by decide)⟩,
        some ⟨false, ⟨['i'], by decide, plain_of_all (by decide)⟩⟩,
        [⟨⟨['a'], by decide, plain_of_all (by decide)⟩, .eq⟩,
          ⟨⟨['b'], by decide, plain_of_all (by decide)⟩, .is⟩]⟩,
      ⟨.scan, none, ⟨"SCANS".toList, by decide +kernel, plain_of_all (by decide +kernel)⟩, none, []⟩]
  exact ⟨_, by decide +kernel, hread (by decide +kernel) (by decide +kernel), by decide +kernel⟩

/-- The token is found in the name of the table. -/
theorem search_of_scans_is_scan :
    ∃ l, Shows "SEARCH SCANS USING INDEX i (a=?)".toList [l] ∧
      parseEqpOutput "SEARCH SCANS USING INDEX i (a=?)".toList ≠ planned [l] := by
  refine ⟨⟨.search, none, ⟨"SCANS".toList, by decide +kernel, plain_of_all (by decide +kernel)⟩,
    some ⟨false, ⟨['i'], by decide, plain_of_all (by decide)⟩⟩,
    [⟨⟨['a'], by decide, plain_of_all (by decide)⟩, .eq⟩]⟩, ?_, ?_⟩
  · decide +kernel
  · decide +kernel

end Turbolite.QueryPlan
