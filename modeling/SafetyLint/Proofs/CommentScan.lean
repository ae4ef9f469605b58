import SafetyLint.Text.Lines
import Mathlib.Data.List.Infix

/-!
# Comment lines and the brackets of block comments

The scan for comment lines asks of a line whether it holds an opening bracket and whether it holds a
closing one, but not how many there are and in which order they come.  Beside it stands the scan
that reads the brackets one after the other, `bracketMarks`.  Both go through the lines with one
bit, whether a block is open, and line by line they differ in one thing only: after a line with a
closing bracket the first scan always takes the block for closed (`scanLine_eq`).

So what the first scan says of a line is right as long as no line closes one block and opens the
next.  `Forgotten` describes the lines at which a block is open and the scan does not know of it,
and the main statement, `commentLines_eq_bracketLines_iff`, says which lines are missing from its
count.  No line is ever counted that should not be.
-/

namespace SafetyLint
namespace Text

/-! ## Brackets in a trimmed line -/

theorem hasPart_iff {part cs : List Char} : hasPart part cs = true ↔ part <:+: cs := by
  induction cs with
  | nil => rw [hasPart, List.isEmpty_iff, List.infix_nil]
  | cons c cs ih =>
    rw [hasPart, Bool.or_eq_true, List.isPrefixOf_iff_prefix, ih, List.infix_cons_iff]

section Visible

variable {part : List Char} (hne : part ≠ []) (hvisible : ∀ c ∈ part, isBlank c = false)
include hne hvisible

/-- A part without blanks is not met while blanks are dropped. -/
theorem infix_dropWhile_iff (cs : List Char) : part <:+: cs.dropWhile isBlank ↔ part <:+: cs := by
  induction cs with
  | nil => rfl
  | cons c cs ih =>
    cases hc : isBlank c with
    | false => rw [List.dropWhile_cons_of_neg (Bool.not_eq_true _ ▸ hc)]
    | true =>
      have hhead : ¬ part <+: c :: cs := by
        obtain ⟨first, rest, rfl⟩ := List.exists_cons_of_ne_nil hne
        intro hprefix
        obtain rfl : first = c := (List.cons_prefix_cons.mp hprefix).1
        rw [hvisible first (List.mem_cons_self ..)] at hc
        exact Bool.false_ne_true hc
      rw [List.dropWhile_cons_of_pos hc, ih, List.infix_cons_iff, or_iff_right hhead]

theorem hasPart_trim (cs : List Char) : hasPart part (trim cs) = hasPart part cs := by
  rw [Bool.eq_iff_iff, hasPart_iff, hasPart_iff, trim, trimEnd, trimStart]
  have hback : part.reverse ≠ [] := List.reverse_ne_nil_iff.mpr hne
  have hvisibleBack : ∀ c ∈ part.reverse, isBlank c = false := fun c hc =>
    hvisible c (List.mem_reverse.mp hc)
  rw [← List.reverse_infix, List.reverse_reverse, infix_dropWhile_iff hback hvisibleBack,
    List.reverse_infix, infix_dropWhile_iff hne hvisible]

end Visible

theorem opensComment_eq (line : List Char) : opensComment line = hasPart ['/', '*'] line :=
  hasPart_trim (List.cons_ne_nil _ _)
    (List.forall_mem_cons.mpr ⟨rfl, List.forall_mem_singleton.mpr rfl⟩) line

theorem closesComment_eq (line : List Char) : closesComment line = hasPart ['*', '/'] line :=
  hasPart_trim (List.cons_ne_nil _ _)
    (List.forall_mem_cons.mpr ⟨rfl, List.forall_mem_singleton.mpr rfl⟩) line

/-! ## The scan of the brackets -/

/-- A block is open after the line, when `inBlock` says whether one is open before it: outside of a
block the next opening bracket counts, inside the next closing one behind it. -/
def openAfterLine : Bool → List Char → Bool
  | false, '/' :: '*' :: cs => openAfterLine true cs
  | true, '*' :: '/' :: cs => openAfterLine false cs
  | inBlock, _ :: cs => openAfterLine inBlock cs
  | inBlock, [] => inBlock

/-- Part of a block lies on the line. -/
def touchesBlock : Bool → List Char → Bool
  | true, _ => true
  | false, '/' :: '*' :: _ => true
  | false, _ :: cs => touchesBlock false cs
  | false, [] => false

/-- The line belongs to a comment: part of a block lies on it, or it starts outside of a block and
is a comment from its first visible character on. -/
def bracketMark (inBlock : Bool) (line : List Char) : Bool :=
  touchesBlock inBlock line || (!inBlock && startsComment line)

/-- Which of the lines belong to a comment, when `inBlock` says whether a block is open before
them. -/
def bracketMarks (inBlock : Bool) : List (List Char) → List Bool
  | [] => []
  | line :: rest => bracketMark inBlock line :: bracketMarks (openAfterLine inBlock line) rest

/-- Number of lines that belong to a comment when the brackets are read one after the other. -/
def bracketLines (lines : List (List Char)) : Nat := (bracketMarks false lines).count true

/-- A block is open after the lines. -/
def openAfter (lines : List (List Char)) : Bool := lines.foldl openAfterLine false

theorem openAfter_append_singleton (before : List (List Char)) (line : List Char) :
    openAfter (before ++ [line]) = openAfterLine (openAfter before) line := by
  rw [openAfter, List.foldl_append]
  rfl

/-! ## One line -/

/-- A bracket that does not stand at the start of a text stands behind its first character. -/
theorem hasPart_pair_cons {a b c : Char} {cs : List Char}
    (h : ∀ rest, c = a → cs = b :: rest → False) :
    hasPart [a, b] (c :: cs) = hasPart [a, b] cs := by
  have hhead : [a, b].isPrefixOf (c :: cs) = false := by
    rw [Bool.eq_false_iff, ne_eq, List.isPrefixOf_iff_prefix]
    rintro ⟨rest, hrest⟩
    obtain ⟨hfirst, hsecond⟩ := List.cons.inj hrest
    exact h rest hfirst.symm hsecond.symm
  rw [hasPart, hhead, Bool.false_or]

theorem touchesBlock_eq (inBlock : Bool) (line : List Char) :
    touchesBlock inBlock line = (inBlock || opensComment line) := by
  rw [opensComment_eq]
  fun_induction touchesBlock inBlock line with
  | case1 => rfl
  | case2 cs => simp [hasPart]
  | case3 c cs hopen ih => rw [ih, hasPart_pair_cons hopen]
  | case4 => rfl

/-- Without a closing bracket a block stays open to the end of the line. -/
theorem openAfterLine_of_not_closes {inBlock : Bool} {line : List Char}
    (h : closesComment line = false) :
    openAfterLine inBlock line = (inBlock || opensComment line) := by
  rw [closesComment_eq] at h
  rw [opensComment_eq]
  fun_induction openAfterLine inBlock line with
  | case1 cs ih =>
    -- `/*/` holds a closing bracket too, so `h` also speaks of what follows the star
    rw [hasPart, hasPart, Bool.or_eq_false_iff, Bool.or_eq_false_iff] at h
    rw [ih h.2.2]
    simp [hasPart]
  | case2 cs ih => simp [hasPart] at h
  | case3 inBlock c cs hopen hclose ih =>
    rw [hasPart, Bool.or_eq_false_iff] at h
    rw [ih h.2]
    cases inBlock with
    | true => rfl
    | false => rw [hasPart_pair_cons fun rest hc hcs => hopen rest rfl hc hcs]
  | case4 inBlock => simp [hasPart]

/-- What the scan for comment lines says of a line is what the brackets say, but after a line with a
closing bracket it takes the block for closed. -/
theorem scanLine_eq (inBlock : Bool) (line : List Char) :
    scanLine inBlock line =
      (bracketMark inBlock line, !closesComment line && openAfterLine inBlock line) := by
  have hopen : closesComment line = false →
      openAfterLine inBlock line = (inBlock || opensComment line) := openAfterLine_of_not_closes
  rw [bracketMark, touchesBlock_eq, scanLine]
  cases hcloses : closesComment line with
  | false =>
    rw [hopen hcloses]
    cases inBlock <;> cases opensComment line <;> simp
  | true => cases inBlock <;> cases opensComment line <;> simp

/-! ## Forgotten blocks -/

/-- The scan for comment lines takes a block for open after the lines. -/
def scannedAfter (lines : List (List Char)) : Bool :=
  lines.foldl (fun inBlock line => (scanLine inBlock line).2) false

/-- A block is open after the lines that was opened behind a closing bracket: a line with a closing
bracket leaves it open, and the lines behind that one hold no brackets. -/
def Forgotten (lines : List (List Char)) : Prop :=
  ∃ before line between, lines = before ++ line :: between ∧ closesComment line = true ∧
    openAfter (before ++ [line]) = true ∧
    ∀ l ∈ between, opensComment l = false ∧ closesComment l = false

theorem not_forgotten_nil : ¬ Forgotten [] := by
  rintro ⟨before, line, between, hlines, -⟩
  exact List.append_ne_nil_of_right_ne_nil before (List.cons_ne_nil line between) hlines.symm

/-- One line more: a line with a closing bracket may leave a block open, and a line without any
bracket changes nothing. -/
theorem forgotten_append_singleton (lines : List (List Char)) (line : List Char) :
    Forgotten (lines ++ [line]) ↔
      (closesComment line = true ∧ openAfter (lines ++ [line]) = true) ∨
      (closesComment line = false ∧ opensComment line = false ∧ Forgotten lines) := by
  constructor
  · rintro ⟨before, last, between, hlines, hcloses, hopen, hbetween⟩
    -- the new line is either the one with the closing bracket or one of those behind it
    rcases List.eq_nil_or_concat between with rfl | ⟨between, l, rfl⟩
    · obtain ⟨rfl, hline⟩ := List.append_inj' hlines rfl
      obtain rfl := List.singleton_inj.mp hline
      exact Or.inl ⟨hcloses, hopen⟩
    · rw [List.concat_eq_append, ← List.cons_append, ← List.append_assoc] at hlines
      obtain ⟨rfl, hline⟩ := List.append_inj' hlines rfl
      obtain rfl := List.singleton_inj.mp hline
      rw [List.concat_eq_append, List.forall_mem_append] at hbetween
      obtain ⟨hopens, hcloses'⟩ := hbetween.2 line (List.mem_singleton_self line)
      exact Or.inr ⟨hcloses', hopens, before, last, between, rfl, hcloses, hopen, hbetween.1⟩
  · rintro (⟨hcloses, hopen⟩ |
      ⟨hcloses', hopens, before, last, between, rfl, hcloses, hopen, hbetween⟩)
    · exact ⟨lines, line, [], rfl, hcloses, hopen, fun _ hl => absurd hl List.not_mem_nil⟩
    · refine ⟨before, last, between ++ [line], ?_, hcloses, hopen, ?_⟩
      · rw [List.append_assoc, List.cons_append]
      · rw [List.forall_mem_append, List.forall_mem_singleton]
        exact ⟨hbetween, hopens, hcloses'⟩

/-- The scan for comment lines knows of a block that is open unless it has forgotten it. -/
theorem scannedAfter_iff (lines : List (List Char)) :
    scannedAfter lines = true ↔ openAfter lines = true ∧ ¬ Forgotten lines := by
  induction lines using List.reverseRecOn with
  | nil =>
    exact ⟨fun h => absurd h Bool.false_ne_true, fun h => absurd h.1 Bool.false_ne_true⟩
  | append_singleton lines line ih =>
    have hstep : scannedAfter (lines ++ [line]) =
        (!closesComment line && openAfterLine (scannedAfter lines) line) := by
      rw [scannedAfter, List.foldl_append, List.foldl_cons, List.foldl_nil, scanLine_eq]
      rfl
    rw [hstep, forgotten_append_singleton]
    cases hcloses : closesComment line with
    | true => simp
    | false =>
      rw [openAfter_append_singleton, openAfterLine_of_not_closes hcloses,
        openAfterLine_of_not_closes hcloses]
      cases opensComment line with
      | true => simp
      | false => simpa using ih

/-- A forgotten block is open. -/
theorem Forgotten.openAfter_eq {lines : List (List Char)} (h : Forgotten lines) :
    openAfter lines = true := by
  induction lines using List.reverseRecOn with
  | nil => exact absurd h not_forgotten_nil
  | append_singleton lines line ih =>
    rcases (forgotten_append_singleton lines line).mp h with ⟨-, hopen⟩ | ⟨hcloses, -, hlines⟩
    · exact hopen
    · rw [openAfter_append_singleton, openAfterLine_of_not_closes hcloses, ih hlines, Bool.true_or]

/-! ## Missing lines -/

/-- The line, behind the given ones, belongs to a comment without being counted: it lies in a
forgotten block, opens no other one, and is not a comment from its first visible character on. -/
def IsMissing (before : List (List Char)) (line : List Char) : Prop :=
  Forgotten before ∧ opensComment line = false ∧ startsComment line = false

/-- A missing line is a line in a block. -/
theorem IsMissing.bracketMark_eq {before : List (List Char)} {line : List Char}
    (h : IsMissing before line) : bracketMark (openAfter before) line = true := by
  rw [h.1.openAfter_eq, bracketMark, touchesBlock_eq, Bool.true_or, Bool.true_or]

/-- What the scan for comment lines says of a line that follows some others. -/
theorem fst_scanLine_iff (before : List (List Char)) (line : List Char) :
    (scanLine (scannedAfter before) line).1 = true ↔
      bracketMark (openAfter before) line = true ∧ ¬ IsMissing before line := by
  rw [scanLine_eq]
  by_cases hforgotten : Forgotten before
  · have hscanned : scannedAfter before = false := by
      rw [Bool.eq_false_iff, ne_eq, scannedAfter_iff]
      exact fun h => h.2 hforgotten
    rw [hscanned, hforgotten.openAfter_eq, bracketMark, bracketMark, touchesBlock_eq,
      touchesBlock_eq, IsMissing]
    cases opensComment line <;> cases startsComment line <;> simp [hforgotten]
  · have hsame : scannedAfter before = openAfter before := by
      rw [Bool.eq_iff_iff, scannedAfter_iff, and_iff_left hforgotten]
    rw [hsame, and_iff_left fun h => hforgotten h.1]

/-- A line among others is either the first one or stands behind it. -/
theorem forall_split_cons {α : Type} {P : List α → α → Prop} {a : α} {l : List α} :
    (∀ before x after, a :: l = before ++ x :: after → P before x) ↔
      P [] a ∧ ∀ before x after, l = before ++ x :: after → P (a :: before) x := by
  constructor
  · refine fun h => ⟨h [] a l rfl, fun before x after hl => h (a :: before) x after ?_⟩
    rw [hl, List.cons_append]
  · rintro ⟨hfirst, hrest⟩ (_ | ⟨b, before⟩) x after hl
    · obtain ⟨rfl, -⟩ := List.cons.inj hl
      exact hfirst
    · obtain ⟨rfl, htail⟩ := List.cons.inj hl
      exact hrest before x after htail

/-- What the two scans count in lines that follow some others. -/
theorem count_commentMarks (before lines : List (List Char)) :
    (commentMarks (scannedAfter before) lines).count true ≤
        (bracketMarks (openAfter before) lines).count true ∧
      ((commentMarks (scannedAfter before) lines).count true =
          (bracketMarks (openAfter before) lines).count true ↔
        ∀ between line after, lines = between ++ line :: after →
          ¬ IsMissing (before ++ between) line) := by
  induction lines generalizing before with
  | nil =>
    refine ⟨Nat.le_refl 0, iff_of_true rfl fun between line after hlines => ?_⟩
    exact absurd hlines.symm (List.append_ne_nil_of_right_ne_nil between (List.cons_ne_nil _ _))
  | cons line lines ih =>
    have hscanned : (scanLine (scannedAfter before) line).2 = scannedAfter (before ++ [line]) := by
      rw [scannedAfter, scannedAfter, List.foldl_append]
      rfl
    obtain ⟨hle, heq⟩ := ih (before ++ [line])
    have hmark := fst_scanLine_iff before line
    rw [commentMarks, bracketMarks, hscanned, ← openAfter_append_singleton, forall_split_cons,
      List.append_nil, List.count_cons, List.count_cons]
    simp only [List.append_assoc, List.singleton_append] at heq ⊢
    rw [← heq]
    by_cases hmissing : IsMissing before line
    · have hcounted : (scanLine (scannedAfter before) line).1 = false :=
        Bool.eq_false_iff.mpr fun h => (hmark.mp h).2 hmissing
      rw [hcounted, hmissing.bracketMark_eq]
      exact ⟨Nat.le_succ_of_le hle,
        iff_of_false (Nat.ne_of_lt (Nat.lt_succ_of_le hle)) fun h => h.1 hmissing⟩
    · have hcounted : (scanLine (scannedAfter before) line).1 =
          bracketMark (openAfter before) line := by
        rw [Bool.eq_iff_iff, hmark, and_iff_left hmissing]
      rw [hcounted, and_iff_right hmissing]
      exact ⟨Nat.add_le_add_right hle _, Nat.add_right_cancel_iff⟩

/-- The count of comment lines against the scan of the brackets, for any lines.

* No line is counted that does not belong to a comment when the brackets are read one after the
  other.
* All of these lines are counted, unless one of them lies in a block that was opened behind a
  closing bracket, where no brackets stand between the line with these two and this one, holds no
  opening bracket itself, and is not a comment from its first visible character on. -/
theorem commentLines_eq_bracketLines_iff (lines : List (List Char)) :
    commentLines lines ≤ bracketLines lines ∧
      (commentLines lines = bracketLines lines ↔
        ∀ before line after, lines = before ++ line :: after → ¬ IsMissing before line) :=
  count_commentMarks [] lines

/-- A line that closes a block and opens the next, and two lines of that block. -/
def reopenedBlock : List (List Char) :=
  ["/* a */ /* b".toList, "c".toList, "*/".toList]

/-- Only the first of the three lines is counted. -/
theorem commentLines_ne_bracketLines_reopenedBlock :
    commentLines reopenedBlock ≠ bracketLines reopenedBlock := by
  decide

end Text
end SafetyLint
