import SafetyLint.Text.Lines
import Mathlib.Data.List.DropRight

/-!
# Line spans

The span of a line is put together from sizes: those of the lines before it with one byte for each
newline, the size of the line less its size without the blanks at its start, and the size of what is
left of it when both ends are trimmed.  None of these numbers is compared with the text again, so
they have to agree for every text: with characters of several bytes, with blanks of several bytes,
in lines that hold nothing but blanks, and with or without a newline at the end.

They agree because each of them is the size of a part of the text.  The text consists of the lines
before, the blanks at the start of the line, its content, the blanks behind that, and the lines
after it (`exists_eq_append_of_getElem?`, `trimsTo_trim`).  Sizes of parts add up, a character ends
where a part ends, and the bytes between two such places are those of the part between them
(`Marks.of_eq_append`).

The main statement, `lineSpan_marks_trimmed_piece`, says which lines have a span and what it covers.
It speaks of the pieces as the library cuts them, and of the content as `TrimsTo` describes it.
-/

namespace SafetyLint
namespace Text

/-! ## Bytes of a text -/

theorem byteSize_append (as bs : List Char) : byteSize (as ++ bs) = byteSize as + byteSize bs :=
  total_append Char.utf8Size as bs

theorem utf8ByteSize_ofList (cs : List Char) :
    (String.ofList cs).utf8ByteSize = byteSize cs := by
  induction cs with
  | nil => rfl
  | cons c cs ih =>
    rw [String.ofList_cons, String.utf8ByteSize_append, String.utf8ByteSize_singleton, ih]
    rfl

theorem size_utf8Encode (cs : List Char) : cs.utf8Encode.size = byteSize cs := by
  rw [← String.toByteArray_ofList, String.size_toByteArray, utf8ByteSize_ofList]

/-- A character ends where a part of a text ends. -/
theorem isValid_byteSize {text : String} {before after : List Char}
    (h : text.toList = before ++ after) : String.Pos.Raw.IsValid text ⟨byteSize before⟩ := by
  have htext : text = String.ofList before ++ String.ofList after := by
    rw [← String.ofList_append, ← h, String.ofList_toList]
  have hend : (String.ofList before).rawEndPos = ⟨byteSize before⟩ := by
    rw [← utf8ByteSize_ofList]
    rfl
  exact String.Pos.Raw.isValid_iff_exists_append.mpr ⟨_, _, htext, hend.symm⟩

/-- The `length` bytes of a text from `offset` on are those of `content`, and no character of the
text is cut at either end of them. -/
structure Marks (text : String) (offset length : Nat) (content : List Char) : Prop where
  within : offset + length ≤ text.utf8ByteSize
  isValid_start : String.Pos.Raw.IsValid text ⟨offset⟩
  isValid_stop : String.Pos.Raw.IsValid text ⟨offset + length⟩
  bytes_eq : text.toByteArray.extract offset (offset + length) = content.utf8Encode

/-- A part of a text is marked by the size of what comes before it and its own size. -/
theorem Marks.of_eq_append {text : String} {before content after : List Char}
    (h : text.toList = before ++ content ++ after) :
    Marks text (byteSize before) (byteSize content) content := by
  have htext : text = String.ofList (before ++ content ++ after) := by
    rw [← h, String.ofList_toList]
  have hsum : byteSize before + byteSize content = byteSize (before ++ content) :=
    (byteSize_append before content).symm
  refine ⟨?_, ?_, ?_, ?_⟩
  · rw [hsum, htext, utf8ByteSize_ofList, byteSize_append (before ++ content)]
    exact Nat.le_add_right _ _
  · exact isValid_byteSize (h.trans (List.append_assoc before content after))
  · rw [hsum]
    exact isValid_byteSize h
  · have hbytes : text.toByteArray =
        before.utf8Encode ++ (content.utf8Encode ++ after.utf8Encode) := by
      rw [htext, String.toByteArray_ofList, List.append_assoc, List.utf8Encode_append,
        List.utf8Encode_append]
    have hstart : byteSize before = before.utf8Encode.size + 0 := by
      rw [size_utf8Encode, Nat.add_zero]
    rw [hbytes, hstart, Nat.add_assoc, Nat.zero_add, ByteArray.extract_append_size_add]
    exact ByteArray.extract_append_eq_left (size_utf8Encode content).symm

/-! ## Where a piece starts -/

theorem pieces_eq_splitOn (cs : List Char) : pieces cs = cs.splitOn '\n' := by
  induction cs with
  | nil => rfl
  | cons c cs ih =>
    rw [pieces_cons, List.splitOn_cons_eq_if_modifyHead, ← ih]
    by_cases hc : c = '\n'
    · subst hc
      rfl
    · obtain ⟨p, ps, hps⟩ := List.exists_cons_of_ne_nil (pieces_ne_nil cs)
      rw [hps, if_neg fun h => hc (beq_iff_eq.mp h)]
      exact if_neg hc

/-- The byte offset of piece `n`: each piece before it is followed by a newline, which is one
byte. -/
def pieceStart (ps : List (List Char)) (n : Nat) : Nat :=
  total (fun p => byteSize p + 1) (ps.take n)

theorem pieceStart_cons_succ (p : List Char) (ps : List (List Char)) (n : Nat) :
    pieceStart (p :: ps) (n + 1) = byteSize p + 1 + pieceStart ps n := rfl

/-- What stands before a piece of a joined text has the size that its start says. -/
theorem exists_intercalate_eq {ps : List (List Char)} {n : Nat} {p : List Char}
    (h : ps[n]? = some p) :
    ∃ before after, ['\n'].intercalate ps = before ++ p ++ after ∧
      byteSize before = pieceStart ps n := by
  induction ps generalizing n with
  | nil => exact absurd h (by simp)
  | cons q ps ih =>
    cases n with
    | zero =>
      obtain rfl : q = p := Option.some.inj h
      cases ps with
      | nil => exact ⟨[], [], by rw [List.intercalate_singleton, List.append_nil]; rfl, rfl⟩
      | cons r ps =>
        refine ⟨[], ['\n'] ++ ['\n'].intercalate (r :: ps), ?_, rfl⟩
        rw [List.intercalate_cons_cons, List.append_assoc]
        rfl
    | succ n =>
      have hrest : ps[n]? = some p := h
      have hne : ps ≠ [] := by
        rintro rfl
        exact absurd hrest (by simp)
      obtain ⟨before, after, hjoin, hsize⟩ := ih hrest
      refine ⟨q ++ ['\n'] ++ before, after, ?_, ?_⟩
      · rw [List.intercalate_cons_of_ne_nil hne, hjoin]
        simp only [List.append_assoc]
      · rw [byteSize_append, byteSize_append, hsize, pieceStart_cons_succ]
        rfl

/-- A text around one of its pieces. -/
theorem exists_eq_append_of_getElem? {cs p : List Char} {n : Nat}
    (h : (cs.splitOn '\n')[n]? = some p) :
    ∃ before after, cs = before ++ p ++ after ∧
      byteSize before = pieceStart (cs.splitOn '\n') n := by
  obtain ⟨before, after, hjoin, hsize⟩ := exists_intercalate_eq h
  rw [List.intercalate_splitOn] at hjoin
  exact ⟨before, after, hjoin, hsize⟩

/-! ## Trimming -/

/-- `content` is what is left of a text without the blanks at its two ends: only blanks stand around
it, and it has no blank at an end itself. -/
structure TrimsTo (cs content : List Char) : Prop where
  exists_around : ∃ indent tail, cs = indent ++ content ++ tail ∧
    (∀ c ∈ indent, isBlank c = true) ∧ ∀ c ∈ tail, isBlank c = true
  first_visible : ∀ c ∈ content.head?, isBlank c = false
  last_visible : ∀ c ∈ content.getLast?, isBlank c = false

/-- The blanks at the start of a text. -/
def indentOf (cs : List Char) : List Char := cs.takeWhile isBlank

theorem trim_eq_rdropWhile (cs : List Char) :
    trim cs = (cs.dropWhile isBlank).rdropWhile isBlank := rfl

/-- A text is its indent, its trimmed content and blanks behind it. -/
theorem exists_eq_indentOf_append_trim (cs : List Char) :
    ∃ tail, cs = indentOf cs ++ trim cs ++ tail ∧ ∀ c ∈ tail, isBlank c = true := by
  refine ⟨(cs.dropWhile isBlank).rtakeWhile isBlank, ?_, fun c hc => List.mem_rtakeWhile_imp hc⟩
  rw [trim_eq_rdropWhile, List.append_assoc, List.rdropWhile_append_rtakeWhile, indentOf,
    List.takeWhile_append_dropWhile]

theorem trimsTo_trim (cs : List Char) : TrimsTo cs (trim cs) := by
  refine ⟨?_, ?_, ?_⟩
  · obtain ⟨tail, hcs, htail⟩ := exists_eq_indentOf_append_trim cs
    exact ⟨indentOf cs, tail, hcs, fun c hc => List.mem_takeWhile_imp hc, htail⟩
  · intro c hc
    -- the content starts where the text without its indent starts
    have hhead : (cs.dropWhile isBlank).head? = some c := by
      obtain ⟨tail, htail⟩ := List.rdropWhile_prefix isBlank (cs.dropWhile isBlank)
      rw [← htail, List.head?_append, ← trim_eq_rdropWhile, hc]
      rfl
    have hnot := List.head?_dropWhile_not isBlank cs
    rwa [hhead] at hnot
  · intro c hc
    rw [trim_eq_rdropWhile] at hc
    have hne : (cs.dropWhile isBlank).rdropWhile isBlank ≠ [] := by
      intro hnil
      rw [hnil] at hc
      exact absurd hc (by simp)
    rw [List.getLast?_eq_some_getLast hne, Option.mem_some_iff] at hc
    rw [← hc, Bool.eq_false_iff]
    exact List.rdropWhile_last_not isBlank _ hne

/-- Nothing else is left of a text than its trimmed content. -/
theorem TrimsTo.eq_trim {cs content : List Char} (h : TrimsTo cs content) : content = trim cs := by
  obtain ⟨indent, tail, rfl, hindent, htail⟩ := h.exists_around
  have hstart : (indent ++ content ++ tail).dropWhile isBlank =
      (content ++ tail).dropWhile isBlank := by
    rw [List.append_assoc, List.dropWhile_append_of_pos hindent]
  rw [trim_eq_rdropWhile, hstart]
  -- without content the blanks behind it go from the front, else they go from the back
  cases hcontent : content with
  | nil =>
    rw [List.nil_append, List.dropWhile_eq_nil_iff.mpr htail]
    rfl
  | cons c rest =>
    have hfirst : isBlank c = false := h.first_visible c (by rw [hcontent]; rfl)
    have hstop : (c :: rest ++ tail).dropWhile isBlank = c :: rest ++ tail :=
      List.dropWhile_cons_of_neg (by rw [hfirst]; exact Bool.false_ne_true)
    have hend : (c :: rest ++ tail).rdropWhile isBlank = (c :: rest).rdropWhile isBlank := by
      rw [List.rdropWhile, List.reverse_append,
        List.dropWhile_append_of_pos fun d hd => htail d (List.mem_reverse.mp hd)]
      rfl
    rw [hstop, hend, List.rdropWhile_eq_self_iff.mpr]
    intro hne
    rw [h.last_visible _ (by rw [hcontent]; exact List.getLast_mem_getLast? hne)]
    exact Bool.false_ne_true

/-- Of a text without a visible character nothing is left. -/
theorem TrimsTo.eq_nil {cs content : List Char} (h : TrimsTo cs content)
    (hblank : ∀ c ∈ cs, isBlank c = true) : content = [] := by
  obtain ⟨indent, tail, rfl, -, -⟩ := h.exists_around
  cases content with
  | nil => rfl
  | cons c rest =>
    have hvisible : isBlank c = false := h.first_visible c rfl
    rw [hblank c (by simp)] at hvisible
    exact absurd hvisible.symm Bool.false_ne_true

/-! ## The span of a line -/

/-- The indent is as long as trimming the start makes a text shorter. -/
theorem byteSize_sub_byteSize_trimStart (cs : List Char) :
    byteSize cs - byteSize (trimStart cs) = byteSize (indentOf cs) := by
  have hsum : byteSize cs = byteSize (indentOf cs) + byteSize (trimStart cs) := by
    rw [← byteSize_append, indentOf, trimStart, List.takeWhile_append_dropWhile]
  omega

/-- The offset that runs through the pieces is the start of a piece when it gets there. -/
theorem trimmedSpanFrom_eq (offset : Nat) (ps : List (List Char)) (n : Nat) :
    trimmedSpanFrom offset ps n = ps[n]?.map fun p =>
      (offset + pieceStart ps n + byteSize (indentOf p), byteSize (trim p)) := by
  induction ps generalizing offset n with
  | nil => rw [trimmedSpanFrom, List.getElem?_nil, Option.map_none]
  | cons q ps ih =>
    cases n with
    | zero =>
      rw [trimmedSpanFrom, byteSize_sub_byteSize_trimStart]
      rfl
    | succ n =>
      rw [trimmedSpanFrom, ih, pieceStart_cons_succ, List.getElem?_cons_succ]
      simp only [Nat.add_assoc]

theorem lineSpan_succ (cs : List Char) (n : Nat) :
    lineSpan cs (n + 1) = (cs.splitOn '\n')[n]?.map fun p =>
      (pieceStart (cs.splitOn '\n') n + byteSize (indentOf p), byteSize (trim p)) := by
  rw [lineSpan, trimmedSpanFrom_eq, pieces_eq_splitOn]
  simp only [Nat.zero_add]

theorem isSome_lineSpan_iff (cs : List Char) (line : Nat) :
    (lineSpan cs line).isSome = true ↔ 1 ≤ line ∧ line ≤ (cs.splitOn '\n').length := by
  cases line with
  | zero => simp [lineSpan]
  | succ n =>
    rw [lineSpan_succ, Option.isSome_map, Nat.succ_le_iff, Nat.succ_le_iff]
    simp

/-- The content of a piece is marked by the start of the piece, with its indent, and its own
size. -/
theorem marks_trim_of_getElem? {text : String} {n : Nat} {piece : List Char}
    (h : (text.toList.splitOn '\n')[n]? = some piece) :
    Marks text (pieceStart (text.toList.splitOn '\n') n + byteSize (indentOf piece))
      (byteSize (trim piece)) (trim piece) := by
  obtain ⟨before, after, htext, hbefore⟩ := exists_eq_append_of_getElem? h
  obtain ⟨tail, hpiece, -⟩ := exists_eq_indentOf_append_trim piece
  have hcut : text.toList = (before ++ indentOf piece) ++ trim piece ++ (tail ++ after) := by
    calc text.toList
        = before ++ piece ++ after := htext
      _ = before ++ (indentOf piece ++ trim piece ++ tail) ++ after := by rw [← hpiece]
      _ = (before ++ indentOf piece) ++ trim piece ++ (tail ++ after) := by
          simp only [List.append_assoc]
  have hmarks := Marks.of_eq_append hcut
  rwa [byteSize_append, hbefore] at hmarks

theorem byteSize_indentOf_add_trim_le (cs : List Char) :
    byteSize (indentOf cs) + byteSize (trim cs) ≤ byteSize cs := by
  obtain ⟨tail, hcs, -⟩ := exists_eq_indentOf_append_trim cs
  have hsum := congrArg byteSize hcs
  rw [byteSize_append, byteSize_append] at hsum
  omega

/-- The span of a line, for any text and any line number.

* There is one exactly for the lines of the text, which are its pieces between newline characters,
  counted from one.
* It lies within its piece, and its bytes are those of the trimmed content of that piece, from one
  boundary of characters to another.  For a blank line it is empty. -/
theorem lineSpan_marks_trimmed_piece (text : String) (line : Nat) :
    let ps := text.toList.splitOn '\n'
    ((lineSpan text.toList line).isSome = true ↔ 1 ≤ line ∧ line ≤ ps.length) ∧
      ∀ offset length, lineSpan text.toList line = some (offset, length) →
        ∃ piece content, ps[line - 1]? = some piece ∧ TrimsTo piece content ∧
          Marks text offset length content ∧
          pieceStart ps (line - 1) ≤ offset ∧
          offset + length ≤ pieceStart ps (line - 1) + byteSize piece ∧
          ((∀ c ∈ piece, isBlank c = true) → length = 0) := by
  intro ps
  refine ⟨isSome_lineSpan_iff text.toList line, fun offset length hspan => ?_⟩
  cases line with
  | zero => exact absurd hspan (by simp [lineSpan])
  | succ n =>
    rw [lineSpan_succ] at hspan
    obtain ⟨piece, hpiece, hsizes⟩ := Option.map_eq_some_iff.mp hspan
    obtain ⟨rfl, rfl⟩ := Prod.mk.inj hsizes
    have hfits := byteSize_indentOf_add_trim_le piece
    refine ⟨piece, trim piece, hpiece, trimsTo_trim piece, marks_trim_of_getElem? hpiece,
      Nat.le_add_right _ _, ?_, ?_⟩
    · rw [Nat.add_assoc]
      exact Nat.add_le_add_left hfits _
    · intro hblank
      rw [(trimsTo_trim piece).eq_nil hblank]
      rfl

/-- The second line begins with a blank of three bytes, holds a character of two, and ends in a tab
and a carriage return. -/
def wideIndent : String := "<?php\n\u3000é@f();\t\r\n"

theorem lineSpan_marks_wideIndent :
    lineSpan wideIndent.toList 2 = some (9, 7) ∧ Marks wideIndent 9 7 "é@f();".toList := by
  have hspan : lineSpan wideIndent.toList 2 = some (9, 7) := by decide
  have hline : (wideIndent.toList.splitOn '\n')[1]? = some "\u3000é@f();\t\r".toList := by decide
  have htrim : trim "\u3000é@f();\t\r".toList = "é@f();".toList := by decide
  obtain ⟨piece, content, hpiece, htrims, hmarks, -⟩ :=
    (lineSpan_marks_trimmed_piece wideIndent 2).2 9 7 hspan
  obtain rfl := Option.some.inj (hline.symm.trans hpiece)
  rw [htrims.eq_trim, htrim] at hmarks
  exact ⟨hspan, hmarks⟩

end Text
end SafetyLint
