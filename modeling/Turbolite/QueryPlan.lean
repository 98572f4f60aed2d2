import Turbolite.Lib.TextSearch

/-!
# Turbolite.QueryPlan

The text of `EXPLAIN QUERY PLAN` read into planned accesses (`query_plan.rs`). A position is a count of
characters here; all pieces that are searched for are ASCII, so the slices are those of the source.

A `Line` is one line of the documented forms, with what it names. `parseEqpOutput_planned` says which
lines the parser reads as they are meant.
-/

namespace Turbolite.QueryPlan

open TextSearch

/-- `&str`, by its characters. -/
abbrev Text := List Char

/-- `AccessType`. -/
inductive AccessType where
  | search
  | scan
  deriving DecidableEq, Repr

/-- `PlannedAccess`. -/
structure PlannedAccess where
  treeName : Text
  accessType : AccessType
  tableName : Option Text
  constraintColumns : List Text
  deriving DecidableEq, Repr

/-! ### Strings -/

/-- `char::is_whitespace`. -/
def isWhitespace (c : Char) : Bool :=
  (9 ≤ c.toNat && c.toNat ≤ 13) || c.toNat == 32 || c.toNat == 0x85 || c.toNat == 0xA0 ||
    c.toNat == 0x1680 || (0x2000 ≤ c.toNat && c.toNat ≤ 0x200A) || c.toNat == 0x2028 ||
    c.toNat == 0x2029 || c.toNat == 0x202F || c.toNat == 0x205F || c.toNat == 0x3000

/-- `str::trim`. -/
def trim (t : Text) : Text := (t.dropWhile isWhitespace).rdropWhile isWhitespace

/-- `str::split_whitespace`. -/
def splitWhitespace (t : Text) : List Text := words isWhitespace t

/-- A line without the carriage return before its newline. -/
def stripCr (line : Text) : Text := if line.getLast? = some '\r' then line.dropLast else line

/-- `str::lines` after the characters of the current line. -/
def linesFrom : Text → Text → List Text
  | cur, [] => if cur.isEmpty then [] else [cur]
  | cur, c :: t => if c = '\n' then stripCr cur :: linesFrom [] t else linesFrom (cur ++ [c]) t

/-- `str::lines`. -/
def lines (t : Text) : List Text := linesFrom [] t

/-- `str::get(n..)`, with `n` in bytes. -/
def getFrom : Nat → Text → Option Text
  | 0, t => some t
  | _ + 1, [] => none
  | n + 1, c :: t => if c.utf8Size ≤ n + 1 then getFrom (n + 1 - c.utf8Size) t else none

/-! ### The parser -/

/-- The operators in the order in which they are tried. -/
def operators : List Text :=
  ["<=".toList, ">=".toList, "=".toList, "<".toList, ">".toList, " IS ".toList]

/-- The text left of the operator. -/
def columnOf (part : Text) : Option Text :=
  (operators.findSome? fun op => find op part).map fun pos => trim (part.take pos)

/-- The column of one part is added, if there is one. -/
def pushColumn (columns : List Text) (part : Text) : List Text :=
  match columnOf (trim part) with
  | none => columns
  | some col => if col.isEmpty then columns else columns ++ [col]

/-- `extract_constraint_columns`. -/
def extractConstraintColumns (eqpRest : Text) : List Text :=
  match rfind '(' eqpRest with
  | none => []
  | some parenStart =>
    match find [')'] (eqpRest.drop parenStart) with
    | none => []
    | some k =>
      let parenEnd := parenStart + k
      let inside := (eqpRest.take parenEnd).drop (parenStart + 1)
      (split " AND ".toList inside).foldl pushColumn []

/-- The first of the two tokens that occurs, `SCAN` before `SEARCH`, and what follows it. -/
def accessToken (trimmed : Text) : Option (AccessType × Text) :=
  match find "SCAN".toList trimmed with
  | some pos => some (.scan, trimmed.drop (pos + 4))
  | none =>
    match find "SEARCH".toList trimmed with
    | some pos => some (.search, trimmed.drop (pos + 6))
    | none => none

/-- The next word, behind an optional `TABLE` or `SUBQUERY`. -/
def tableName (rest : Text) : Option Text :=
  match splitWhitespace rest with
  | [] => none
  | first :: more =>
    if first = "TABLE".toList ∨ first = "SUBQUERY".toList then more.head? else some first

/-- The word behind `USING [COVERING] INDEX`. -/
def indexName (rest : Text) : Option Text :=
  match (find "USING INDEX".toList rest).or (find "USING COVERING INDEX".toList rest) with
  | none => none
  | some idxPos =>
    let afterUsing := rest.drop idxPos
    let idxNameStart :=
      if "USING COVERING INDEX".toList.isPrefixOf afterUsing then "USING COVERING INDEX ".toList.length
      else "USING INDEX ".toList.length
    (getFrom idxNameStart afterUsing).bind fun s => (splitWhitespace s).head?

/-- The loop state: the accesses so far and the keys of the set `seen`. -/
structure Found where
  accesses : List PlannedAccess := []
  seen : List (Text × AccessType) := []

/-- An access is pushed when its key is new. -/
def Found.insert (f : Found) (a : PlannedAccess) : Found :=
  if (a.treeName, a.accessType) ∈ f.seen then f
  else { accesses := f.accesses ++ [a], seen := (a.treeName, a.accessType) :: f.seen }

/-- The accesses that the text behind the token of a line names, in the order in which they are
inserted. -/
def restAccesses (accessType : AccessType) (rest : Text) : List PlannedAccess :=
  match tableName rest with
  | none => []
  | some table =>
    let constraintColumns := extractConstraintColumns rest
    let access (tree : Text) : PlannedAccess :=
      { treeName := tree, accessType := accessType, tableName := some table,
        constraintColumns := constraintColumns }
    (if accessType = .scan then [access table] else []) ++ ((indexName rest).map access).toList

/-- The accesses of one line. -/
def lineAccesses (line : Text) : List PlannedAccess :=
  match accessToken (trim line) with
  | none => []
  | some (accessType, rest) => restAccesses accessType (trim rest)

/-- `parse_eqp_output`. -/
def parseEqpOutput (eqpText : Text) : List PlannedAccess :=
  ((lines eqpText).foldl (fun f line => (lineAccesses line).foldl Found.insert f) {}).accesses

/-! ### Lines -/

/-- A name as the plan prints it. -/
structure Name where
  chars : Text
  nonempty : chars ≠ []
  plain : ∀ c ∈ chars, isWhitespace c = false ∧ c ≠ '(' ∧ c ≠ ')'

/-- The operator of one constraint. -/
inductive Operator where
  | le
  | ge
  | eq
  | lt
  | gt
  | is
  deriving DecidableEq, Repr

/-- How SQLite prints the operator. -/
def Operator.text : Operator → Text
  | .le => "<=".toList
  | .ge => ">=".toList
  | .eq => "=".toList
  | .lt => "<".toList
  | .gt => ">".toList
  | .is => " IS ".toList

/-- `column=?`. -/
structure Constraint where
  column : Name
  operator : Operator

/-- How SQLite prints a term. -/
def Constraint.text (c : Constraint) : Text := c.column.chars ++ c.operator.text ++ ['?']

/-- The optional word before the name of the table. -/
inductive Keyword where
  | table
  | subquery
  deriving DecidableEq, Repr

/-- How SQLite prints the keyword. -/
def Keyword.text : Keyword → Text
  | .table => "TABLE".toList
  | .subquery => "SUBQUERY".toList

/-- `USING INDEX name` or `USING COVERING INDEX name`. -/
structure IndexUse where
  covering : Bool
  name : Name

/-- A line of a query plan. -/
structure Line where
  accessType : AccessType
  keyword : Option Keyword
  table : Name
  index : Option IndexUse
  /-- none of them: the line has no list -/
  constraints : List Constraint

/-- How SQLite prints the kind of the access. -/
def AccessType.text : AccessType → Text
  | .search => "SEARCH".toList
  | .scan => "SCAN".toList

/-- How SQLite prints the index. -/
def IndexUse.text (i : IndexUse) : Text :=
  (if i.covering then " USING COVERING INDEX ".toList else " USING INDEX ".toList) ++ i.name.chars

/-- The terms with `AND` between them. -/
def constraintText : List Constraint → Text
  | [] => []
  | [c] => c.text
  | c :: cs => c.text ++ (" AND ".toList ++ constraintText cs)

namespace Line

/-- The keyword and a blank. -/
def keywordText (l : Line) : Text := (l.keyword.map fun k => k.text ++ [' ']).getD []

/-- The index, if there is one. -/
def indexText (l : Line) : Text := (l.index.map IndexUse.text).getD []

/-- The terms in parentheses, if there are any. -/
def listText (l : Line) : Text :=
  if l.constraints.isEmpty then [] else " (".toList ++ constraintText l.constraints ++ [')']

/-- The line without its first word. -/
def rest (l : Line) : Text := l.keywordText ++ (l.table.chars ++ (l.indexText ++ l.listText))

/-- The line as SQLite prints it. -/
def text (l : Line) : Text := l.accessType.text ++ ' ' :: l.rest

/-- One of the accesses that the line stands for. -/
def access (l : Line) (tree : Name) : PlannedAccess :=
  { treeName := tree.chars, accessType := l.accessType, tableName := some l.table.chars,
    constraintColumns := l.constraints.map fun c => c.column.chars }

/-- What the line stands for. -/
def accesses (l : Line) : List PlannedAccess :=
  (if l.accessType = .scan then [l.access l.table] else []) ++
    (l.index.map fun i => l.access i.name).toList

end Line

/-- Two accesses of one type to one tree. -/
def sameTree (a b : PlannedAccess) : Bool :=
  a.treeName == b.treeName && a.accessType == b.accessType

/-- What the lines stand for, in order of first occurrence. -/
def planned (ls : List Line) : List PlannedAccess := (ls.flatMap Line.accesses).eraseDupsBy sameTree

/-! ### Trimming and words -/

theorem Name.isWhitespace_eq_false (n : Name) : ∀ c ∈ n.chars, isWhitespace c = false :=
  fun c hc => (n.plain c hc).1

theorem Name.notMem_of_isWhitespace (n : Name) {c : Char} (hc : isWhitespace c = true) :
    c ∉ n.chars := by
  intro hmem
  rw [n.isWhitespace_eq_false c hmem] at hc
  cases hc

theorem Name.space_notMem (n : Name) : ' ' ∉ n.chars := n.notMem_of_isWhitespace (by decide)

theorem trim_eq_self {t : Text} (hhead : ∀ c ∈ t.head?, isWhitespace c = false)
    (hlast : ∀ c ∈ t.getLast?, isWhitespace c = false) : trim t = t := by
  have hdrop : t.dropWhile isWhitespace = t := by
    cases t with
    | nil => rfl
    | cons c t => exact List.dropWhile_cons_of_neg (by simp [hhead c rfl])
  rw [trim, hdrop, List.rdropWhile_eq_self_iff]
  intro hne
  simp [hlast _ (List.getLast?_eq_some_getLast hne)]

theorem trim_of_forall {t : Text} (h : ∀ c ∈ t, isWhitespace c = false) : trim t = t :=
  trim_eq_self (fun c hc => h c (List.mem_of_head? hc)) fun c hc => h c (List.mem_of_getLast? hc)

theorem trim_space {t : Text} : trim (' ' :: t) = trim t := by
  rw [trim, List.dropWhile_cons_of_pos (by decide), trim]

theorem mem_trim {c : Char} {t : Text} (hc : c ∈ t) (hp : isWhitespace c = false) : c ∈ trim t := by
  have hleft : ∀ {u : Text}, c ∈ u → c ∈ u.dropWhile isWhitespace := by
    intro u hu
    rw [← List.takeWhile_append_dropWhile (p := isWhitespace) (l := u)] at hu
    rcases List.mem_append.mp hu with htake | hdrop
    · have hws := List.mem_takeWhile_imp htake
      rw [hp] at hws
      cases hws
    · exact hdrop
  rw [trim, List.rdropWhile, List.mem_reverse]
  exact hleft (List.mem_reverse.mpr (hleft hc))

/-- A text that goes on behind a name, if at all, with a space. -/
def Spaced (t : Text) : Prop := t = [] ∨ ∃ u, t = ' ' :: u

theorem splitWhitespace_space (t : Text) : splitWhitespace (' ' :: t) = splitWhitespace t := by
  rw [splitWhitespace, words, List.splitOnP_cons_eq_if_modifyHead, if_pos (by decide)]
  rfl

theorem splitWhitespace_append {w t : Text} (hne : w ≠ []) (hw : ∀ c ∈ w, isWhitespace c = false)
    (ht : Spaced t) : splitWhitespace (w ++ t) = w :: splitWhitespace t := by
  rcases ht with rfl | ⟨u, rfl⟩
  · rw [List.append_nil, splitWhitespace, words_of_word hne hw]
    rfl
  · rw [splitWhitespace_space, splitWhitespace, words_append hne hw (by decide), splitWhitespace]

/-! ### Operators and columns -/

/-- The operators that are tried before this one. -/
def Operator.earlier (o : Operator) : List Text := operators.takeWhile (· != o.text)

/-- The operator of the constraint is the first one tried that its text has, and stands in it first
behind the column. -/
def Constraint.Readable (c : Constraint) : Prop :=
  (∀ op ∈ c.operator.earlier, ¬ op <:+: c.column.chars ++ c.operator.text) ∧
    ¬ c.operator.text <:+: c.column.chars

theorem Operator.exists_operators_eq (o : Operator) :
    ∃ later, operators = o.earlier ++ o.text :: later := by
  cases o <;> exact ⟨_, rfl⟩

theorem Operator.text_ne_nil (o : Operator) : o.text ≠ [] := by
  cases o <;> decide

theorem Operator.earlier_not_infix (o : Operator) :
    ∀ op ∈ o.earlier, op ≠ [] ∧ '?' ∉ op ∧ ¬ op <:+: o.text ++ ['?'] := by
  cases o <;> decide

theorem Operator.not_infix_dropLast (o : Operator) {n : Name} (h : ¬ o.text <:+: n.chars) :
    ¬ o.text <:+: n.chars ++ o.text.dropLast := by
  have hpair : ∀ {a b : Char}, a ≠ b → ¬ [a, b] <:+: n.chars → ¬ [a, b] <:+: n.chars ++ [a] := by
    intro a b hab hn
    rw [List.infix_concat_iff]
    refine not_or.mpr ⟨fun hsuf => ?_, hn⟩
    obtain ⟨t, ht⟩ := hsuf
    have hlast := congrArg List.getLast? ht
    rw [List.getLast?_append_of_ne_nil t (List.cons_ne_nil a [b]), List.getLast?_concat] at hlast
    exact hab (by simpa using hlast.symm)
  cases o with
  | le => exact hpair (by decide) h
  | ge => exact hpair (by decide) h
  | eq => simpa [Operator.text] using h
  | lt => simpa [Operator.text] using h
  | gt => simpa [Operator.text] using h
  | is =>
    have hfrom : (Operator.is).text <:+: n.chars ++ (Operator.is).text.dropLast ↔ _ :=
      infix_from n.space_notMem
    rw [hfrom]
    decide

namespace Constraint

variable (c : Constraint)

theorem trim_text : trim c.text = c.text := by
  refine trim_eq_self (fun d hd => ?_) fun d hd => ?_
  · obtain ⟨e, t, hcol⟩ := List.exists_cons_of_ne_nil c.column.nonempty
    have hde : e = d := by simpa [text, hcol] using hd
    exact hde ▸ c.column.isWhitespace_eq_false e (hcol ▸ List.mem_cons_self)
  · have hdq : '?' = d := by simpa [text] using hd
    exact hdq ▸ rfl

/-- The operator found stands no later than the own one, and there exactly when the constraint is
readable. -/
theorem exists_findSome_operators :
    ∃ k ≤ c.column.chars.length, operators.findSome? (fun op => find op c.text) = some k ∧
      (k = c.column.chars.length ↔ c.Readable) := by
  obtain ⟨later, hops⟩ := c.operator.exists_operators_eq
  have hown : c.text = c.column.chars ++ c.operator.text ++ ['?'] := rfl
  rw [hops, List.findSome?_append]
  cases hearlier : c.operator.earlier.findSome? fun op => find op c.text with
  | some k =>
    -- an operator tried earlier stands in the column, or reaches out of it
    obtain ⟨op, hop, hk⟩ := List.exists_of_findSome?_eq_some hearlier
    obtain ⟨⟨p, s, hp, rfl⟩, -⟩ := find_eq_some_iff.mp hk
    obtain ⟨hne, hq, hnot⟩ := c.operator.earlier_not_infix op hop
    have hlt : p.length < c.column.chars.length := by
      by_contra hle
      push Not at hle
      rw [hown, List.append_assoc, List.append_assoc] at hp
      rcases List.append_eq_append_iff.mp hp with ⟨m, rfl, hm⟩ | ⟨m, hcol, hm⟩
      · exact hnot ⟨m, s, by rw [hm, List.append_assoc]⟩
      · obtain rfl : m = [] := by
          rw [hcol, List.length_append] at hle
          exact List.eq_nil_of_length_eq_zero (by omega)
        exact hnot ⟨[], s, hm⟩
    refine ⟨p.length, hlt.le, rfl, iff_of_false hlt.ne fun hread => hread.1 op hop ?_⟩
    have hinf : op <:+: c.text := ⟨p, s, hp.symm⟩
    rw [hown, infix_around hq] at hinf
    exact hinf.resolve_right fun h => hne (List.infix_nil.mp h)
  | none =>
    have hfree : ∀ op ∈ c.operator.earlier, ¬ op <:+: c.column.chars ++ c.operator.text := by
      intro op hop hinf
      have hnone := List.findSome?_eq_none_iff.mp hearlier op hop
      exact find_eq_none_iff.mp hnone (hinf.trans (List.prefix_append _ ['?']).isInfix)
    by_cases hinf : c.operator.text <:+: c.column.chars
    · obtain ⟨p, s, hp⟩ := hinf
      obtain ⟨k, hk, hle⟩ := find_le (n := c.operator.text) (t := c.text) (p := p)
        (s := s ++ (c.operator.text ++ ['?'])) (by rw [hown, ← hp]; simp only [List.append_assoc])
      have hlen : p.length < c.column.chars.length := by
        have hpos := List.length_pos_of_ne_nil c.operator.text_ne_nil
        rw [← hp, List.length_append, List.length_append]
        omega
      refine ⟨k, by omega, by simp [hk], iff_of_false (by omega) fun hread => ?_⟩
      exact hread.2 ⟨p, s, hp⟩
    · have hk : find c.operator.text c.text = some c.column.chars.length :=
        find_append (c.operator.not_infix_dropLast hinf)
      exact ⟨_, le_rfl, by simp [hk], iff_of_true rfl ⟨hfree, hinf⟩⟩

/-- The column as it is read from the text. -/
theorem exists_columnOf :
    ∃ k ≤ c.column.chars.length, columnOf c.text = some (c.column.chars.take k) ∧
      (k = c.column.chars.length ↔ c.Readable) := by
  obtain ⟨k, hle, hk, hread⟩ := c.exists_findSome_operators
  refine ⟨k, hle, ?_, hread⟩
  rw [columnOf, hk, Option.map_some]
  congr 1
  rw [text, List.append_assoc, List.take_append_of_le_length hle]
  exact trim_of_forall fun d hd => c.column.isWhitespace_eq_false d (List.mem_of_mem_take hd)

end Constraint

/-! ### The constraint list -/

theorem constraintText_cons (c d : Constraint) (cs : List Constraint) :
    constraintText (c :: d :: cs) = c.text ++ (" AND ".toList ++ constraintText (d :: cs)) := rfl

/-- What stands behind the column of a constraint. -/
theorem Operator.exists_text_eq (op : Operator) :
    ∃ o t, op.text ++ ['?'] = o :: t ∧ (o :: t = " IS ?".toList ∨ ' ' ∉ o :: t) ∧ '(' ∉ o :: t ∧
      ')' ∉ o :: t ∧ o ∉ "SCAN".toList ∧ ¬ "SCAN".toList <:+: t := by
  cases op with
  | le => exact ⟨'<', "=?".toList, by decide⟩
  | ge => exact ⟨'>', "=?".toList, by decide⟩
  | eq => exact ⟨'=', "?".toList, by decide⟩
  | lt => exact ⟨'<', "?".toList, by decide⟩
  | gt => exact ⟨'>', "?".toList, by decide⟩
  | is => exact ⟨' ', "IS ?".toList, by decide⟩

theorem Constraint.text_eq (c : Constraint) :
    c.text = c.column.chars ++ (c.operator.text ++ ['?']) := List.append_assoc _ _ _

/-- No separator begins inside a constraint. -/
theorem Constraint.not_and_infix (c : Constraint) :
    ¬ " AND ".toList <:+: c.text ++ " AND ".toList.dropLast := by
  obtain ⟨o, t, htext, hop, -⟩ := c.operator.exists_text_eq
  rw [c.text_eq, htext, List.append_assoc]
  have hfrom : " AND ".toList <:+: c.column.chars ++ (o :: t ++ " AND ".toList.dropLast) ↔
      " AND ".toList <:+: o :: t ++ " AND ".toList.dropLast := infix_from c.column.space_notMem
  rw [hfrom]
  rcases hop with hop | hop
  · rw [hop]
    decide
  · have hfrom' : " AND ".toList <:+: o :: t ++ " AND ".toList.dropLast ↔
        " AND ".toList <:+: " AND ".toList.dropLast := infix_from hop
    rw [hfrom']
    decide

theorem split_constraintText {cs : List Constraint} (hcs : cs ≠ []) :
    split " AND ".toList (constraintText cs) = cs.map Constraint.text := by
  induction cs with
  | nil => exact absurd rfl hcs
  | cons c cs ih =>
    cases cs with
    | nil =>
      exact split_of_not_infix fun h =>
        c.not_and_infix (h.trans (List.prefix_append c.text _).isInfix)
    | cons d cs =>
      rw [constraintText_cons, split_append (by decide) c.not_and_infix, ih (List.cons_ne_nil d cs)]
      rfl

theorem paren_notMem_constraintText (cs : List Constraint) :
    '(' ∉ constraintText cs ∧ ')' ∉ constraintText cs := by
  have hone : ∀ c : Constraint, '(' ∉ c.text ∧ ')' ∉ c.text := by
    intro c
    obtain ⟨o, t, htext, -, hopen, hclose, -⟩ := c.operator.exists_text_eq
    rw [c.text_eq, htext, List.mem_append, List.mem_append, not_or, not_or]
    exact ⟨⟨fun h => (c.column.plain _ h).2.1 rfl, hopen⟩,
      ⟨fun h => (c.column.plain _ h).2.2 rfl, hclose⟩⟩
  have hand : '(' ∉ " AND ".toList ∧ ')' ∉ " AND ".toList := by decide
  induction cs with
  | nil => exact ⟨List.not_mem_nil, List.not_mem_nil⟩
  | cons c cs ih =>
    cases cs with
    | nil => exact hone c
    | cons d cs =>
      simp only [constraintText_cons, List.mem_append, not_or]
      exact ⟨⟨(hone c).1, hand.1, ih.1⟩, ⟨(hone c).2, hand.2, ih.2⟩⟩

/-- The column as it is read, and nothing where none is left. -/
def Constraint.readColumn (c : Constraint) : Text := (columnOf c.text).getD []

theorem foldl_pushColumn (cs : List Constraint) (cols : List Text) :
    (cs.map Constraint.text).foldl pushColumn cols =
      cols ++ (cs.map Constraint.readColumn).filter (!·.isEmpty) := by
  induction cs generalizing cols with
  | nil => exact (List.append_nil cols).symm
  | cons c cs ih =>
    obtain ⟨k, -, hk, -⟩ := c.exists_columnOf
    rw [List.map_cons, List.foldl_cons, ih, List.map_cons, List.filter_cons, pushColumn, c.trim_text,
      Constraint.readColumn, hk, Option.getD_some]
    cases c.column.chars.take k with
    | nil => rfl
    | cons d col => exact List.append_assoc cols [d :: col] _

theorem Constraint.readColumn_eq_iff (c : Constraint) :
    c.readColumn = c.column.chars ↔ c.Readable := by
  obtain ⟨k, hle, hk, hread⟩ := c.exists_columnOf
  rw [Constraint.readColumn, hk, Option.getD_some, List.take_eq_self_iff, ← hread]
  omega

/-- All columns are read when each is. -/
theorem filter_readColumn_eq_iff (cs : List Constraint) :
    (cs.map Constraint.readColumn).filter (!·.isEmpty) = cs.map (fun c => c.column.chars) ↔
      ∀ c ∈ cs, c.Readable := by
  induction cs with
  | nil => simp
  | cons c cs ih =>
    rw [List.forall_mem_cons, ← ih, ← c.readColumn_eq_iff, List.map_cons, List.filter_cons,
      List.map_cons]
    cases hcol : c.readColumn with
    | nil =>
      -- a skipped column makes the list too short
      refine iff_of_false (fun h => ?_) fun h => c.column.nonempty h.1.symm
      have hlen := congrArg List.length h
      have hle := List.length_filter_le (!·.isEmpty) (cs.map Constraint.readColumn)
      simp only [List.isEmpty_nil, Bool.not_true, Bool.false_eq_true, if_false, List.length_cons,
        List.length_map] at hlen hle
      omega
    | cons d col => exact List.cons_eq_cons

namespace Line

variable (l : Line)

/-- A line without its constraint list. -/
def head : Text := l.keywordText ++ (l.table.chars ++ l.indexText)

theorem rest_eq_head : l.rest = l.head ++ l.listText := by
  simp only [rest, head, List.append_assoc]

theorem paren_notMem_head : '(' ∉ l.head := by
  have hkeyword : '(' ∉ l.keywordText := by
    unfold keywordText
    cases l.keyword with
    | none => exact List.not_mem_nil
    | some k => cases k <;> decide
  have hname : ∀ n : Name, '(' ∉ n.chars := fun n h => (n.plain _ h).2.1 rfl
  have hindex : '(' ∉ l.indexText := by
    unfold indexText
    cases l.index with
    | none => exact List.not_mem_nil
    | some i =>
      rw [Option.map_some, Option.getD_some, IndexUse.text, List.mem_append, not_or]
      exact ⟨by cases i.covering <;> decide, hname i.name⟩
  rw [head, List.mem_append, List.mem_append, not_or, not_or]
  exact ⟨hkeyword, hname l.table, hindex⟩

theorem extractConstraintColumns_rest :
    extractConstraintColumns l.rest = (l.constraints.map Constraint.readColumn).filter (!·.isEmpty) := by
  rw [rest_eq_head, listText]
  cases hcs : l.constraints with
  | nil =>
    rw [List.isEmpty_nil, if_pos rfl, List.append_nil, extractConstraintColumns,
      rfind_of_notMem l.paren_notMem_head]
    rfl
  | cons c cs =>
    obtain ⟨hopen, hclose⟩ := paren_notMem_constraintText (c :: cs)
    have hrest : l.head ++ (" (".toList ++ constraintText (c :: cs) ++ [')']) =
        (l.head ++ [' ']) ++ '(' :: (constraintText (c :: cs) ++ [')']) := by simp
    have hstart : '(' ∉ constraintText (c :: cs) ++ [')'] := by simpa using hopen
    have hend : find [')'] ('(' :: (constraintText (c :: cs) ++ [')'])) =
        some ((constraintText (c :: cs)).length + 1) := by
      have hbefore : ¬ [')'] <:+: '(' :: constraintText (c :: cs) ++ [] := by
        rw [List.append_nil, List.singleton_infix_iff]
        simpa using hclose
      simpa using find_append (s := []) hbefore
    have hinside : (((l.head ++ [' ']) ++ '(' :: (constraintText (c :: cs) ++ [')'])).take
        ((l.head ++ [' ']).length + ((constraintText (c :: cs)).length + 1))).drop
          ((l.head ++ [' ']).length + 1) = constraintText (c :: cs) := by
      rw [List.drop_take, List.drop_length_add_append, List.drop_succ_cons, List.drop_zero,
        Nat.add_sub_add_left, Nat.add_sub_cancel, List.take_left]
    rw [List.isEmpty_cons, if_neg Bool.false_ne_true, hrest, extractConstraintColumns,
      rfind_append hstart]
    simp only [List.drop_left, hend, hinside]
    rw [split_constraintText (List.cons_ne_nil c cs), foldl_pushColumn, List.nil_append]

end Line

end Turbolite.QueryPlan
