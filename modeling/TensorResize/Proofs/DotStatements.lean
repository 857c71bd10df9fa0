import Mathlib.Data.List.Basic
import Mathlib.Data.Nat.Notation
import TensorResize.Graph.Dot
import TensorResize.Proofs.Sequencing

/-!
# Reading DOT texts

A DOT text is read line by line: between a fixed header and a fixed footer every line is a statement
about one node or one edge. The label of a statement is a quoted string. A backslash takes the next
character with it, the first other quote ends the string, and a line break does not belong into it.

What is written as statements is read as these statements exactly if every label ends at the quote
that was written behind it.

## Main definitions

* `Dot.scan` — goes through some characters of a quoted string.
* `Dot.Closes`, `Dot.IsPlain` — texts that can be a label, and that can stand in one.
* `Dot.Statement`, `Dot.text` — statements, and the text of several.
* `Dot.read?` — the statements of a text.
-/

namespace TensorResize.Dot

/-! ## Quoted strings -/

/-- One more character of a quoted string. The state says whether a backslash stands before the next
character. A quote goes on only behind a backslash, and a line break never. -/
def advance (escaped : Bool) (c : Char) : Option Bool :=
  if c = '\n' then none
  else if escaped then some false
  else if c = '"' then none
  else some (c == '\\')

/-- The state behind some characters of a quoted string, if it goes on up to there. -/
def scan (escaped : Bool) (cs : List Char) : Option Bool := cs.foldlM advance escaped

/-- A quoted string that starts with these characters goes on, and ends with a quote behind them. -/
def Closes (cs : List Char) : Prop := scan false cs = some false

/-- A quoted string goes on through these characters: every quote among them has a backslash of its
own before it, and no line break is among them. -/
def IsPlain (cs : List Char) : Prop := (scan false cs).isSome

instance (cs : List Char) : Decidable (Closes cs) := inferInstanceAs (Decidable (_ = _))

instance (cs : List Char) : Decidable (IsPlain cs) := inferInstanceAs (Decidable (_ = true))

/-- A quoted string up to the quote that ends it, and what follows. -/
def quoted? (escaped : Bool) : List Char → Option (List Char × List Char)
  | [] => none
  | c :: cs =>
    if c = '"' ∧ escaped = false then some ([], cs)
    else do
      let escaped ← advance escaped c
      let (label, rest) ← quoted? escaped cs
      return (c :: label, rest)

section Scan

variable {escaped : Bool} {c : Char} {cs cs' label rest : List Char}

theorem scan_cons : scan escaped (c :: cs) = (advance escaped c).bind (scan · cs) := rfl

theorem scan_append : scan escaped (cs ++ cs') = (scan escaped cs).bind (scan · cs') :=
  List.foldlM_append

theorem not_mem_of_scan (h : (scan escaped cs).isSome) : '\n' ∉ cs := by
  induction cs generalizing escaped with
  | nil => exact List.not_mem_nil
  | cons c cs ih =>
    rw [scan_cons, Option.isSome_bind] at h
    obtain ⟨escaped', hadvance, hrest⟩ := (Option.any_eq_true ..).1 h
    rw [List.mem_cons, not_or]
    refine ⟨?_, ih hrest⟩
    rintro rfl
    cases hadvance

theorem Closes.not_mem (h : Closes cs) : '\n' ∉ cs := by
  apply @not_mem_of_scan false
  rw [h]
  rfl

/-- A string that goes on through a label and closes behind it is read up to there. -/
theorem quoted?_append (h : scan escaped label = some false) :
    quoted? escaped (label ++ '"' :: rest) = some (label, rest) := by
  induction label generalizing escaped with
  | nil =>
    cases h
    rfl
  | cons c label ih =>
    rw [scan_cons, Option.bind_eq_some_iff] at h
    obtain ⟨escaped', hadvance, hlabel⟩ := h
    have hgoes : ¬(c = '"' ∧ escaped = false) := by
      rintro ⟨rfl, rfl⟩
      cases hadvance
    rw [List.cons_append, quoted?, if_neg hgoes, hadvance]
    simp only [bind, Option.bind, ih hlabel]
    rfl

/-- What is read as a label closes. -/
theorem closes_of_quoted? (h : quoted? escaped cs = some (label, rest)) :
    scan escaped label = some false := by
  induction cs generalizing escaped label with
  | nil => cases h
  | cons c cs ih =>
    rw [quoted?] at h
    split at h
    · next hends =>
      cases h
      rw [hends.2]
      rfl
    · simp only [bind, Option.bind_eq_some_iff] at h
      obtain ⟨escaped', hadvance, ⟨label', rest'⟩, hrest, h⟩ := h
      cases h
      rw [scan_cons, hadvance]
      exact ih hrest

end Scan

/-! ## Statements -/

/-- The end of a statement, which holds its label. -/
def labelText (label : List Char) : List Char := " [label=\"".toList ++ (label ++ '"' :: "];".toList)

/-- A statement of a DOT text. -/
inductive Statement where
  | node (id : ℕ) (label : List Char)
  | edge (source target : ℕ) (label : List Char)
  deriving DecidableEq

namespace Statement

def label : Statement → List Char
  | node _ label => label
  | edge _ _ label => label

/-- The statement as it is written, with its label as it is. -/
def line : Statement → List Char
  | node id label => "  n".toList ++ ((toString id).toList ++ labelText label)
  | edge source target label =>
    "  n".toList ++ ((toString source).toList ++ (" -> n".toList ++ ((toString target).toList ++
      labelText label)))

end Statement

/-- The number that a text starts with, and what follows. -/
def number? (cs : List Char) : Option (ℕ × List Char) :=
  let digits := cs.takeWhile Char.isDigit
  if digits = [] then none else some (Nat.ofDigitChars 10 digits 0, cs.dropWhile Char.isDigit)

/-- The label that the end of a statement holds. -/
def label? (cs : List Char) : Option (List Char) := do
  let cs ← cs.dropPrefix? " [label=\"".toList
  let (label, rest) ← quoted? false cs
  if rest = "];".toList then some label else none

/-- The statement that is written on a line. -/
def statement? (cs : List Char) : Option Statement := do
  let cs ← cs.dropPrefix? "  n".toList
  let (id, cs) ← number? cs
  match cs.dropPrefix? " -> n".toList with
  | none => return .node id (← label? cs)
  | some cs =>
    let (target, cs) ← number? cs
    return .edge id target (← label? cs)

/-- The lines before the first statement. -/
def headerLines : List (List Char) :=
  ["digraph G \x7b".toList, "  rankdir=LR;".toList, "  node [shape=box];".toList, []]

/-- The lines after the last statement. The last line break has nothing behind it. -/
def footerLines : List (List Char) := ["\x7d".toList, []]

/-- The statements of a text, one on each line between header and footer. -/
def read? (cs : List Char) : Option (List Statement) := do
  let lines ← (cs.splitOn '\n').dropPrefix? headerLines
  let lines ← lines.dropSuffix? footerLines
  lines.mapM statement?

/-- The text of some statements. -/
def text (statements : List Statement) : List Char :=
  dotHeader.toList ++ statements.flatMap (fun s => s.line ++ ['\n']) ++ dotFooter.toList

/-! ## Reading what was written -/

variable {c : Char} {cs label rest : List Char} {s : Statement} {statements : List Statement}

theorem dropPrefix?_append {α : Type} [BEq α] [LawfulBEq α] (l rest : List α) :
    (l ++ rest).dropPrefix? l = some rest :=
  List.dropPrefix?_eq_some_iff.2 ⟨l, rfl, beq_self_eq_true l⟩

theorem dropSuffix?_append {α : Type} [BEq α] [LawfulBEq α] (l rest : List α) :
    (l ++ rest).dropSuffix? rest = some l :=
  List.dropSuffix?_eq_some_iff.2 ⟨rest, rfl, beq_self_eq_true rest⟩

theorem toList_toString (n : ℕ) : (toString n).toList = Nat.toDigits 10 n := by
  rw [Nat.toString_eq_repr, Nat.toList_repr]

theorem isDigit_of_mem_toString {n : ℕ} (h : c ∈ (toString n).toList) : c.isDigit = true := by
  rw [toList_toString] at h
  exact Nat.isDigit_of_mem_toDigits (by decide) (by decide) h

/-- A number is read up to the first character that is no digit. -/
theorem number?_append (n : ℕ) (hc : c.isDigit = false) :
    number? ((toString n).toList ++ c :: rest) = some (n, c :: rest) := by
  have hdigits : ∀ c ∈ (toString n).toList, c.isDigit = true :=
    fun c hc => isDigit_of_mem_toString hc
  have htake : ((toString n).toList ++ c :: rest).takeWhile Char.isDigit =
      (toString n).toList := by
    rw [List.takeWhile_append_of_pos hdigits, List.takeWhile_cons_of_neg (by simp [hc]),
      List.append_nil]
  have hdrop : ((toString n).toList ++ c :: rest).dropWhile Char.isDigit = c :: rest := by
    rw [List.dropWhile_append_of_pos hdigits, List.dropWhile_cons_of_neg (by simp [hc])]
  have hne : (toString n).toList ≠ [] := by
    rw [toList_toString]
    exact Nat.toDigits_ne_nil
  rw [number?, htake, hdrop]
  simp only [hne, if_false]
  rw [toList_toString, Nat.ofDigitChars_toDigits (by decide) (by decide)]

theorem label?_labelText (h : Closes label) : label? (labelText label) = some label := by
  have hstart : (labelText label).dropPrefix? " [label=\"".toList =
      some (label ++ '"' :: "];".toList) := dropPrefix?_append ..
  have hquoted : quoted? false (label ++ '"' :: "];".toList) = some (label, "];".toList) :=
    quoted?_append h
  rw [label?, hstart]
  simp only [bind, Option.bind, hquoted, if_true]

theorem closes_of_label? (h : label? cs = some label) : Closes label := by
  simp only [label?, bind, Option.bind_eq_some_iff] at h
  obtain ⟨cs', -, ⟨label', rest⟩, hquoted, h⟩ := h
  split at h
  · cases h
    exact closes_of_quoted? hquoted
  · cases h

/-- A statement is read back if its label closes. -/
theorem statement?_line (h : Closes s.label) : statement? s.line = some s := by
  cases s with
  | node id label =>
    have hlabel : label? (labelText label) = some label := label?_labelText h
    have hid : number? ((toString id).toList ++ labelText label) = some (id, labelText label) :=
      number?_append id rfl
    have hnode : (labelText label).dropPrefix? " -> n".toList = none := rfl
    rw [statement?, Statement.line, dropPrefix?_append]
    simp only [bind, Option.bind, hid, hnode, hlabel]
    rfl
  | edge source target label =>
    have hlabel : label? (labelText label) = some label := label?_labelText h
    have hsource (rest : List Char) : number? ((toString source).toList ++
        (" -> n".toList ++ rest)) = some (source, " -> n".toList ++ rest) :=
      number?_append source rfl
    have htarget : number? ((toString target).toList ++ labelText label) =
        some (target, labelText label) := number?_append target rfl
    rw [statement?, Statement.line, dropPrefix?_append]
    simp only [bind, Option.bind, hsource, dropPrefix?_append, htarget, hlabel]
    rfl

/-- The label of a statement that is read closes. -/
theorem closes_of_statement? (h : statement? cs = some s) : Closes s.label := by
  simp only [statement?, bind, Option.bind_eq_some_iff] at h
  obtain ⟨cs₁, -, ⟨id, cs₂⟩, -, h⟩ := h
  split at h
  · simp only [Option.bind_eq_some_iff] at h
    obtain ⟨label, hlabel, h⟩ := h
    cases h
    exact closes_of_label? hlabel
  · simp only [Option.bind_eq_some_iff] at h
    obtain ⟨⟨target, cs₃⟩, -, label, hlabel, h⟩ := h
    cases h
    exact closes_of_label? hlabel

/-! ## Lines -/

/-- A statement is written on one line if its label closes. -/
theorem not_mem_line (h : Closes s.label) : '\n' ∉ s.line := by
  have hdigits (n : ℕ) : '\n' ∉ (toString n).toList :=
    fun hn => absurd (isDigit_of_mem_toString hn) (by decide)
  have hlabel : '\n' ∉ labelText s.label := by
    change '\n' ∉ " [label=\"".toList ++ (s.label ++ '"' :: "];".toList)
    simp only [List.mem_append, List.mem_cons, not_or]
    exact ⟨by decide, h.not_mem, by decide, by decide⟩
  cases s with
  | node id label =>
    simp only [Statement.line, List.mem_append, not_or]
    exact ⟨by decide, hdigits id, hlabel⟩
  | edge source target label =>
    simp only [Statement.line, List.mem_append, not_or]
    exact ⟨by decide, hdigits source, by decide, hdigits target, hlabel⟩

/-- Lines that each end in a line break stand before the line that follows them. -/
theorem intercalate_append (lines : List (List Char)) {more : List (List Char)} (hmore : more ≠ []) :
    ['\n'].intercalate (lines ++ more) =
      lines.flatMap (· ++ ['\n']) ++ ['\n'].intercalate more := by
  induction lines with
  | nil => rfl
  | cons l lines ih =>
    rw [List.cons_append, List.intercalate_cons_of_ne_nil (List.append_ne_nil_of_right_ne_nil _ hmore),
      ih, List.flatMap_cons, List.append_assoc _ _ (List.intercalate _ _)]

theorem text_eq_intercalate (statements : List Statement) :
    text statements =
      ['\n'].intercalate (headerLines ++ (statements.map Statement.line ++ footerLines)) := by
  rw [intercalate_append _ (by simp [footerLines]), intercalate_append _ (by simp [footerLines]),
    List.flatMap_map, ← List.append_assoc]
  rfl

/-- Every statement that is read from some lines was written on one of them. -/
theorem exists_line_of_mem {lines : List (List Char)} (h : lines.mapM statement? = some statements)
    (hs : s ∈ statements) : ∃ line ∈ lines, statement? line = some s := by
  induction lines generalizing statements with
  | nil =>
    cases h
    cases hs
  | cons line lines ih =>
    simp only [List.mapM_cons, bind, Option.bind_eq_some_iff] at h
    obtain ⟨first, hfirst, others, hothers, h⟩ := h
    cases h
    obtain rfl | hs := List.mem_cons.1 hs
    · exact ⟨line, List.mem_cons_self .., hfirst⟩
    · obtain ⟨other, hother, hread⟩ := ih hothers hs
      exact ⟨other, List.mem_cons_of_mem _ hother, hread⟩

/-- The label of every statement of a text closes. -/
theorem closes_of_read? (h : read? cs = some statements) (hs : s ∈ statements) :
    Closes s.label := by
  simp only [read?, bind, Option.bind_eq_some_iff] at h
  obtain ⟨-, -, lines, -, hread⟩ := h
  obtain ⟨line, -, hline⟩ := exists_line_of_mem hread hs
  exact closes_of_statement? hline

/-- Statements are read back from their text exactly if the label of each of them closes. -/
theorem read?_text_iff : read? (text statements) = some statements ↔
    ∀ s ∈ statements, Closes s.label := by
  refine ⟨fun h s hs => closes_of_read? h hs, fun h => ?_⟩
  have hlines : (text statements).splitOn '\n' =
      headerLines ++ (statements.map Statement.line ++ footerLines) := by
    rw [text_eq_intercalate]
    refine List.splitOn_intercalate '\n' ?_ (by simp [headerLines])
    simp only [List.forall_mem_append, List.forall_mem_map]
    exact ⟨by decide, fun s hs => not_mem_line (h s hs), by decide⟩
  have hread : (statements.map Statement.line).mapM statement? = pure (statements.map id) := by
    rw [List.mapM_map]
    exact mapM_eq_pure_map fun s hs => statement?_line (h s hs)
  rw [read?, hlines, dropPrefix?_append]
  simp only [bind, Option.bind, dropSuffix?_append]
  rw [hread, List.map_id]
  rfl

end TensorResize.Dot
