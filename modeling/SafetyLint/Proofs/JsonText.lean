import SafetyLint.Json.Printer
import SafetyLint.Json.Reader
import SafetyLint.Proofs.Preorder
import Mathlib.Data.List.Basic

/-!
# Reading back a written text

What the printer writes, the reader reads back.  The argument has the two layers of the reader.  A
text lexes to tokens if the reader finds these tokens in front of whatever may follow (`Lexes`): all
that a continuation must not do is to lengthen a number.  The text of a value lexes to the tokens of
the value, compact or over several lines.  From these tokens the machine with its stack of frames
builds the value and hands it to the frame in which it stands (`run_tokensOf`).

Doubles are left out: they are written with as many digits as they need, but not read exactly.
-/

namespace SafetyLint
namespace Json

/-! ## Values with their parts -/

/-- The values directly inside a value. -/
def parts : Json → List Json
  | arr items => items
  | obj members => members.map Prod.snd
  | hidden v => [v]
  | _ => []

theorem total_sizeOf_le (items : List Json) : total sizeOf items ≤ sizeOf items := by
  induction items with
  | nil => exact Nat.zero_le _
  | cons v rest ih =>
    rw [total_cons, List.cons.sizeOf_spec]
    omega

theorem total_sizeOf_members_le (members : List (String × Json)) :
    total sizeOf (members.map Prod.snd) ≤ sizeOf members := by
  induction members with
  | nil => exact Nat.zero_le _
  | cons m rest ih =>
    obtain ⟨key, v⟩ := m
    simp only [List.map_cons, total_cons, List.cons.sizeOf_spec, Prod.mk.sizeOf_spec]
    omega

theorem total_parts_lt (v : Json) : total sizeOf v.parts < sizeOf v := by
  cases v with
  | arr items =>
    have := total_sizeOf_le items
    simp only [parts, arr.sizeOf_spec]
    omega
  | obj members =>
    have := total_sizeOf_members_le members
    simp only [parts, obj.sizeOf_spec]
    omega
  | int _ | float _ | str _ | fault _ _ =>
    simp only [parts, total_nil, int.sizeOf_spec, float.sizeOf_spec, str.sizeOf_spec,
      fault.sizeOf_spec]
    omega
  | _ => simp [parts]

instance : Walk.Branching Json where
  children := parts
  exists_weight := ⟨sizeOf, total_parts_lt⟩

/-- A value that stands in a text as it is, apart from what stands in it: no fault, no double, and
no whole number beyond 64 bits. -/
def isExact : Json → Bool
  | int i => -9223372036854775808 ≤ i && i ≤ maxWord
  | float _ => false
  | fault _ _ => false
  | hidden _ => false
  | _ => true

theorem isExact_int {i : Int} :
    (int i).isExact ↔ -9223372036854775808 ≤ i ∧ i ≤ (maxWord : Int) := by
  simp [isExact]

/-- A value all of whose parts are exact. -/
def Exact (v : Json) : Prop := ∀ u ∈ Walk.preorder v, u.isExact

theorem exact_iff {v : Json} : v.Exact ↔ v.isExact ∧ ∀ u ∈ v.parts, u.Exact :=
  Walk.forall_mem_preorder

/-! ## Lexing in front of a continuation -/

/-- A text that does not lengthen a number in front of it. -/
def Stops : List Char → Prop
  | [] => True
  | c :: _ => ¬ isDigit c ∧ c ≠ '.' ∧ c ≠ 'e' ∧ c ≠ 'E'

/-- In front of whatever may follow, the text has these tokens. -/
def Lexes (cs : List Char) (ts : List Token) : Prop :=
  ∀ rest, Stops rest → tokensFrom [] (cs ++ rest) = ts ++ tokensFrom [] rest

/-! ### Punctuation and blanks -/

section Single

variable (rest : List Char)

theorem tokensFrom_openArr : tokensFrom [] ('[' :: rest) = .openArr :: tokensFrom [] rest := by
  rw [tokensFrom]
  exact tokensFrom_eq [.openArr] rest

theorem tokensFrom_closeArr : tokensFrom [] (']' :: rest) = .closeArr :: tokensFrom [] rest := by
  rw [tokensFrom]
  exact tokensFrom_eq [.closeArr] rest

theorem tokensFrom_openObj : tokensFrom [] ('{' :: rest) = .openObj :: tokensFrom [] rest := by
  rw [tokensFrom]
  exact tokensFrom_eq [.openObj] rest

theorem tokensFrom_closeObj : tokensFrom [] ('}' :: rest) = .closeObj :: tokensFrom [] rest := by
  rw [tokensFrom]
  exact tokensFrom_eq [.closeObj] rest

theorem tokensFrom_comma : tokensFrom [] (',' :: rest) = .comma :: tokensFrom [] rest := by
  rw [tokensFrom]
  exact tokensFrom_eq [.comma] rest

theorem tokensFrom_colon : tokensFrom [] (':' :: rest) = .colon :: tokensFrom [] rest := by
  rw [tokensFrom]
  exact tokensFrom_eq [.colon] rest

end Single

theorem tokensFrom_spaces {ws : List Char} (h : ∀ c ∈ ws, isSpace c) (rest : List Char) :
    tokensFrom [] (ws ++ rest) = tokensFrom [] rest := by
  induction ws with
  | nil => rfl
  | cons c ws ih =>
    rw [List.cons_append, tokensFrom, if_pos (h c (List.mem_cons_self ..)),
      ih fun d hd => h d (List.mem_cons_of_mem c hd)]

/-! ### Strings -/

theorem hexValue?_hexDigit : ∀ n < 16, hexValue? (hexDigit n) = some n := by decide

theorem unit?_hexDigit {n : Nat} (h : n < 0x20) :
    unit? '0' '0' (hexDigit (n / 16)) (hexDigit (n % 16)) = some n := by
  have hhigh := hexValue?_hexDigit (n / 16) (by omega)
  have hlow := hexValue?_hexDigit (n % 16) (Nat.mod_lt n (by omega))
  have hzero : hexValue? '0' = some 0 := by decide
  simp only [unit?, hzero, hhigh, hlow, Option.bind_eq_bind, Option.bind_some, Option.pure_def]
  congr 1
  omega

theorem scanText_shortEscape {e c : Char} (acc : List Char) (readable : Bool) (rest : List Char)
    (hu : e ≠ 'u') (he : shortEscape? e = some c) :
    scanText acc readable ('\\' :: e :: rest) = scanText (c :: acc) readable rest := by
  rw [scanText.eq_def]
  simp [hu, he]

/-- An escaped character is read as the character. -/
theorem scanText_escapeChar (acc : List Char) (readable : Bool) (c : Char) (rest : List Char) :
    scanText acc readable (escapeChar c ++ rest) = scanText (c :: acc) readable rest := by
  unfold escapeChar
  split_ifs with hquote hslash hline hreturn htab hback hfeed hcontrol
  · subst hquote
    exact scanText_shortEscape acc readable rest (by decide) rfl
  · subst hslash
    exact scanText_shortEscape acc readable rest (by decide) rfl
  · subst hline
    exact scanText_shortEscape acc readable rest (by decide) rfl
  · subst hreturn
    exact scanText_shortEscape acc readable rest (by decide) rfl
  · subst htab
    exact scanText_shortEscape acc readable rest (by decide) rfl
  · subst hback
    exact scanText_shortEscape acc readable rest (by decide) rfl
  · subst hfeed
    exact scanText_shortEscape acc readable rest (by decide) rfl
  · have hlow : isLowSurrogate c.toNat = false := by simp [isLowSurrogate]; omega
    have hhigh : isHighSurrogate c.toNat = false := by simp [isHighSurrogate]; omega
    rw [List.cons_append, scanText.eq_def]
    simp [unit?_hexDigit hcontrol, hlow, hhigh]
  · rw [List.singleton_append, scanText.eq_def]
    simp [hquote, hslash, hcontrol]

theorem scanText_escape (acc cs rest : List Char) :
    scanText acc true (cs.flatMap escapeChar ++ '"' :: rest) =
      ⟨cs.reverse ++ acc, true, none, rest⟩ := by
  induction cs generalizing acc with
  | nil =>
    rw [List.flatMap_nil, List.nil_append, scanText.eq_def]
    rfl
  | cons c cs ih =>
    rw [List.flatMap_cons, List.append_assoc, scanText_escapeChar, ih, List.reverse_cons,
      List.append_assoc]
    rfl

theorem tokensFrom_quote (s : String) (rest : List Char) :
    tokensFrom [] ((quote s).toList ++ rest) = .str s :: tokensFrom [] rest := by
  have hquote : (quote s).toList ++ rest = '"' :: (s.toList.flatMap escapeChar ++ '"' :: rest) := by
    simp [quote, String.toList_append, List.append_assoc]
  rw [hquote, tokensFrom]
  show tokensFrom [(scanText [] true _).token] (scanText [] true _).rest = _
  rw [scanText_escape, tokensFrom_eq]
  simp [TextScan.token]

/-! ### Numbers -/

theorem digitsValue_eq (ds : List Char) : digitsValue ds = Nat.ofDigitChars 10 ds 0 := by
  rw [Nat.ofDigitChars_eq_foldl, digitsValue]
  simp only [digitValue, Nat.mul_comm]

theorem digitsValue_toDigits (n : Nat) : digitsValue (Nat.toDigits 10 n) = n := by
  rw [digitsValue_eq, Nat.ofDigitChars_ten_toDigits]

theorem isDigit_of_mem_toDigits {n : Nat} {c : Char} (h : c ∈ Nat.toDigits 10 n) : isDigit c := by
  have hc := Nat.isDigit_of_mem_toDigits (by decide) (by decide) h
  rw [Char.isDigit] at hc
  exact hc

/-- Only the number zero starts with the digit zero. -/
theorem head?_toDigits_ne_zero (n : Nat) (h : 0 < n) : (Nat.toDigits 10 n).head? ≠ some '0' := by
  induction n using Nat.strongRecOn with
  | ind n ih =>
    rw [Nat.toDigits_eq_if (by decide)]
    split
    · next hlt =>
      have hall : ∀ d < 10, 0 < d → [Nat.digitChar d].head? ≠ some '0' := by decide
      exact hall n hlt h
    · next hge =>
      rw [List.head?_append_of_ne_nil _ Nat.toDigits_ne_nil]
      exact ih (n / 10) (by omega) (by omega)

/-- A scan of digits takes all of them and stops at what follows. -/
theorem takeWhile_toDigits (n : Nat) {rest : List Char} (h : Stops rest) :
    (Nat.toDigits 10 n ++ rest).takeWhile isDigit = Nat.toDigits 10 n := by
  rw [List.takeWhile_append_of_pos fun c hc => isDigit_of_mem_toDigits hc]
  cases rest with
  | nil => exact List.append_nil _
  | cons c rest => rw [List.takeWhile_cons_of_neg h.1, List.append_nil]

theorem dropWhile_toDigits (n : Nat) {rest : List Char} (h : Stops rest) :
    (Nat.toDigits 10 n ++ rest).dropWhile isDigit = rest := by
  rw [List.dropWhile_append_of_pos fun c hc => isDigit_of_mem_toDigits hc]
  cases rest with
  | nil => rfl
  | cons c rest => rw [List.dropWhile_cons_of_neg h.1]

theorem scanNumber_toDigits (negative : Bool) (n : Nat) {rest : List Char} (h : Stops rest) :
    scanNumber negative (Nat.toDigits 10 n ++ rest) =
      (.value (wholeValue negative (Nat.toDigits 10 n)), rest) := by
  have hzero : ∀ d more, Nat.toDigits 10 n = d :: more → (d = '0' && !more.isEmpty) = false := by
    intro d more hds
    rcases Nat.eq_zero_or_pos n with rfl | hpos
    · cases hds
      rfl
    · have hhead := head?_toDigits_ne_zero n hpos
      rw [hds, List.head?_cons, Ne, Option.some_inj] at hhead
      rw [decide_eq_false hhead, Bool.false_and]
  rw [scanNumber, takeWhile_toDigits n h, dropWhile_toDigits n h]
  cases hds : Nat.toDigits 10 n with
  | nil => exact absurd hds Nat.toDigits_ne_nil
  | cons d more =>
    simp only [hzero d more hds]
    cases rest with
    | nil => rfl
    | cons c rest => simp [scanExponent, h.2.1, h.2.2.1, h.2.2.2]

theorem tokensFrom_minus (cs : List Char) :
    tokensFrom [] ('-' :: cs) = (scanNumber true cs).1 :: tokensFrom [] (scanNumber true cs).2 := by
  rw [tokensFrom]
  exact tokensFrom_eq [_] _

theorem tokensFrom_digit {d : Char} (hd : isDigit d) (cs : List Char) :
    tokensFrom [] (d :: cs) =
      (scanNumber false (d :: cs)).1 :: tokensFrom [] (scanNumber false (d :: cs)).2 := by
  have hne : ∀ c, isDigit c = false → d ≠ c := by
    rintro c hc rfl
    exact Bool.false_ne_true (hc.symm.trans hd)
  have hspace : isSpace d = false := by
    simp [isSpace, hne ' ' rfl, hne '\n' rfl, hne '\t' rfl, hne '\r' rfl]
  rw [tokensFrom]
  simp only [hspace, hd, hne '[' rfl, hne ']' rfl, hne '{' rfl, hne '}' rfl, hne ',' rfl,
    hne ':' rfl, hne '"' rfl, hne 'n' rfl, hne 't' rfl, hne 'f' rfl, hne '-' rfl, if_true, if_false,
    Bool.false_eq_true]
  exact tokensFrom_eq [_] _

/-- A whole number within 64 bits lexes to itself. -/
theorem lexes_int {i : Int} (h : (int i).isExact) :
    Lexes (toString i).toList [.value (.int i)] := by
  intro rest hrest
  have hrange := isExact_int.mp h
  cases i with
  | ofNat n =>
    have hvalue : wholeValue false (Nat.toDigits 10 n) = .int (Int.ofNat n) := by
      have hword : n ≤ maxWord := Int.ofNat_le.mp hrange.2
      simp [wholeValue, digitsValue_toDigits, hword]
    have hscan := scanNumber_toDigits false n hrest
    show tokensFrom [] ((Nat.repr n).toList ++ rest) = _
    rw [Nat.toList_repr]
    cases hds : Nat.toDigits 10 n with
    | nil => exact absurd hds Nat.toDigits_ne_nil
    | cons d more =>
      have hd : isDigit d := isDigit_of_mem_toDigits (hds ▸ List.mem_cons_self ..)
      rw [hvalue, hds] at hscan
      rw [List.cons_append] at hscan ⊢
      rw [tokensFrom_digit hd, hscan]
      rfl
  | negSucc n =>
    have hvalue : wholeValue true (Nat.toDigits 10 (n + 1)) = .int (Int.negSucc n) := by
      have hword : n + 1 ≤ 9223372036854775808 := by omega
      simp [wholeValue, digitsValue_toDigits, hword, Int.negSucc_eq]
    have hscan := scanNumber_toDigits true (n + 1) hrest
    have hchars : (toString (Int.negSucc n)).toList = '-' :: Nat.toDigits 10 (n + 1) := by
      show ("-" ++ Nat.repr (n + 1)).toList = _
      rw [String.toList_append, Nat.toList_repr]
      rfl
    rw [hchars, List.cons_append, tokensFrom_minus, hscan, hvalue]
    rfl

/-! ## The tokens of a value -/

mutual

/-- The tokens of a value. -/
def tokensOf : Json → List Token
  | str s => [.str s]
  | arr items => .openArr :: ([.comma].intercalate (itemTokens items) ++ [.closeArr])
  | obj members => .openObj :: ([.comma].intercalate (memberTokens members) ++ [.closeObj])
  | hidden v => tokensOf v
  | v => [.value v]

/-- The tokens of each item of an array. -/
def itemTokens : List Json → List (List Token)
  | [] => []
  | v :: rest => tokensOf v :: itemTokens rest

/-- The tokens of each member of an object. -/
def memberTokens : List (String × Json) → List (List Token)
  | [] => []
  | (key, v) :: rest => (.str key :: .colon :: tokensOf v) :: memberTokens rest

end

theorem lexes_null : Lexes "null".toList [.value .null] := by
  intro rest _
  show tokensFrom [] ('n' :: 'u' :: 'l' :: 'l' :: rest) = _
  rw [tokensFrom]
  exact tokensFrom_eq [_] _

theorem lexes_bool (b : Bool) :
    Lexes (if b then "true" else "false").toList [.value (.bool b)] := by
  intro rest _
  cases b with
  | true =>
    show tokensFrom [] ('t' :: 'r' :: 'u' :: 'e' :: rest) = _
    rw [tokensFrom]
    exact tokensFrom_eq [_] _
  | false =>
    show tokensFrom [] ('f' :: 'a' :: 'l' :: 's' :: 'e' :: rest) = _
    rw [tokensFrom]
    exact tokensFrom_eq [_] _

theorem lexes_quote (s : String) : Lexes (quote s).toList [.str s] :=
  fun rest _ => tokensFrom_quote s rest

theorem isSpace_of_mem_lineBreak {pretty : Bool} {depth : Nat} :
    ∀ c ∈ (lineBreak pretty depth).toList, isSpace c := by
  intro c hc
  unfold lineBreak at hc
  cases pretty with
  | false => exact absurd hc List.not_mem_nil
  | true =>
    rw [if_pos rfl, String.toList_append, List.mem_append] at hc
    rcases hc with hc | hc
    · rw [List.mem_singleton.mp hc]
      rfl
    · rw [String.toList_ofList] at hc
      rw [List.eq_of_mem_replicate hc]
      rfl

theorem stops_comma (rest : List Char) : Stops (',' :: rest) :=
  ⟨by decide, by decide, by decide, by decide⟩

/-- Blanks do not lengthen a number. -/
theorem stops_append {ws : List Char} (h : ∀ c ∈ ws, isSpace c) {rest : List Char}
    (hrest : Stops rest) : Stops (ws ++ rest) := by
  cases ws with
  | nil => exact hrest
  | cons c ws =>
    have hspace := h c (List.mem_cons_self ..)
    simp only [isSpace, Bool.or_eq_true, decide_eq_true_eq] at hspace
    rcases hspace with ((rfl | rfl) | rfl) | rfl <;>
      exact ⟨by decide, by decide, by decide, by decide⟩

/-- Entries with commas between them. -/
theorem Lexes.intercalate {ws : List Char} (hws : ∀ c ∈ ws, isSpace c) {entries : List (List Char)}
    {tss : List (List Token)} (h : List.Forall₂ Lexes entries tss) :
    Lexes ((',' :: ws).intercalate entries) ([Token.comma].intercalate tss) := by
  induction h with
  | nil => exact fun rest _ => rfl
  | @cons cs ts entries tss hhead htail ih =>
    cases htail with
    | nil => rwa [List.intercalate_singleton, List.intercalate_singleton]
    | cons hnext hmore =>
      intro rest hrest
      rw [List.intercalate_cons_cons, List.intercalate_cons_cons, List.append_assoc,
        List.append_assoc, List.cons_append, hhead _ (stops_comma _), tokensFrom_comma,
        tokensFrom_spaces hws, ih rest hrest]
      simp only [List.append_assoc, List.cons_append, List.nil_append]

/-- Entries between brackets. -/
theorem lexes_bracket (pretty : Bool) (depth : Nat) (left right : String) {opening closing : Token}
    (hleft : ∀ rest, tokensFrom [] (left.toList ++ rest) = opening :: tokensFrom [] rest)
    (hright : ∀ rest, tokensFrom [] (right.toList ++ rest) = closing :: tokensFrom [] rest)
    (hstops : ∀ rest, Stops (right.toList ++ rest)) {entries : List String}
    {tss : List (List Token)} (h : List.Forall₂ Lexes (entries.map String.toList) tss) :
    Lexes (bracket pretty depth left right entries).toList
      (opening :: ([Token.comma].intercalate tss ++ [closing])) := by
  intro rest hrest
  unfold bracket
  cases entries with
  | nil =>
    cases h
    rw [List.isEmpty_nil, if_pos rfl, String.toList_append, List.append_assoc, hleft, hright]
    rfl
  | cons entry entries =>
    have hbreak := @isSpace_of_mem_lineBreak pretty
    have hentries := Lexes.intercalate (@hbreak (depth + 1)) h
    have hstop := stops_append (@hbreak depth) (hstops rest)
    have hsep : ("," ++ lineBreak pretty (depth + 1)).toList =
        ',' :: (lineBreak pretty (depth + 1)).toList := String.toList_append
    rw [List.isEmpty_cons, if_neg Bool.false_ne_true]
    iterate 4 rw [String.toList_append]
    rw [String.toList_intercalate, hsep]
    simp only [List.append_assoc]
    rw [hleft, tokensFrom_spaces hbreak, hentries _ hstop, tokensFrom_spaces hbreak, hright]
    rw [List.cons_append, List.append_assoc]
    rfl

theorem forall₂_renderItems (pretty : Bool) (depth : Nat) {items : List Json}
    (h : ∀ v ∈ items, Lexes (renderAt pretty depth v).toList (tokensOf v)) :
    List.Forall₂ Lexes ((renderItems pretty depth items).map String.toList)
      (itemTokens items) := by
  induction items with
  | nil => exact List.Forall₂.nil
  | cons v rest ih =>
    exact List.Forall₂.cons (h v (List.mem_cons_self ..))
      (ih fun u hu => h u (List.mem_cons_of_mem v hu))

theorem lexes_member (pretty : Bool) (key : String) {text : String} {ts : List Token}
    (h : Lexes text.toList ts) :
    Lexes (quote key ++ (if pretty then ": " else ":") ++ text).toList
      (.str key :: .colon :: ts) := by
  intro rest hrest
  rw [String.toList_append, String.toList_append, List.append_assoc, List.append_assoc,
    tokensFrom_quote]
  cases pretty with
  | true =>
    have hblank : ∀ c ∈ [' '], isSpace c := fun c hc => by
      rw [List.mem_singleton.mp hc]
      decide
    show _ :: tokensFrom [] (':' :: ([' '] ++ (text.toList ++ rest))) = _
    rw [tokensFrom_colon, tokensFrom_spaces hblank, h rest hrest]
    rfl
  | false =>
    show _ :: tokensFrom [] (':' :: (text.toList ++ rest)) = _
    rw [tokensFrom_colon, h rest hrest]
    rfl

theorem forall₂_renderMembers (pretty : Bool) (depth : Nat) {members : List (String × Json)}
    (h : ∀ m ∈ members, Lexes (renderAt pretty depth m.2).toList (tokensOf m.2)) :
    List.Forall₂ Lexes ((renderMembers pretty depth members).map String.toList)
      (memberTokens members) := by
  induction members with
  | nil => exact List.Forall₂.nil
  | cons m rest ih =>
    exact List.Forall₂.cons (lexes_member pretty m.1 (h m (List.mem_cons_self ..)))
      (ih fun u hu => h u (List.mem_cons_of_mem m hu))

/-- The text of an exact value lexes to its tokens. -/
theorem lexes_renderAt (pretty : Bool) (depth : Nat) {v : Json} (h : v.Exact) :
    Lexes (renderAt pretty depth v).toList (tokensOf v) := by
  induction v using Walk.induct generalizing depth with
  | step v ih =>
    obtain ⟨hself, hparts⟩ := exact_iff.mp h
    cases v with
    | null => exact lexes_null
    | bool b => exact lexes_bool b
    | int i => exact lexes_int hself
    | str s => exact lexes_quote s
    | arr items =>
      refine lexes_bracket pretty depth "[" "]" tokensFrom_openArr tokensFrom_closeArr
        (fun rest => ⟨by decide, by decide, by decide, by decide⟩) ?_
      exact forall₂_renderItems pretty (depth + 1) fun v hv => ih v hv (depth + 1) (hparts v hv)
    | obj members =>
      refine lexes_bracket pretty depth "\x7b" "\x7d" tokensFrom_openObj tokensFrom_closeObj
        (fun rest => ⟨by decide, by decide, by decide, by decide⟩) ?_
      refine forall₂_renderMembers pretty (depth + 1) fun m hm => ?_
      have hpart : m.2 ∈ (obj members).parts := List.mem_map_of_mem hm
      exact ih m.2 hpart (depth + 1) (hparts m.2 hpart)
    | float x => exact absurd hself Bool.false_ne_true
    | fault reading passing => exact absurd hself Bool.false_ne_true
    | hidden v => exact absurd hself Bool.false_ne_true

/-! ## Building a value from its tokens -/

/-- A complete value goes into the innermost frame; without one it is the document. -/
def handOver (frames : List Frame) (v : Json) (rest : List Token) : Document :=
  match frames with
  | [] => ⟨v, !rest.isEmpty⟩
  | .arr items :: outer => run (.arr (v :: items) :: outer) .next rest
  | .obj members key :: outer => run (.obj (key.member v :: members) (.text "") :: outer) .next rest

/-- From the tokens of a value the machine builds the value and hands it over. -/
def Builds (v : Json) : Prop :=
  ∀ frames orClose rest, run frames (.value orClose) (tokensOf v ++ rest) = handOver frames v rest

theorem run_closeArr (items : List Json) (outer : List Frame) (rest : List Token) :
    run (.arr items :: outer) .next (.closeArr :: rest) =
      handOver outer (.arr items.reverse) rest := by
  cases outer with
  | nil => rfl
  | cons frame outer => cases frame <;> rfl

theorem run_closeObj (members : List (String × Json)) (key : Key) (outer : List Frame)
    (rest : List Token) :
    run (.obj members key :: outer) .next (.closeObj :: rest) =
      handOver outer (.obj members.reverse) rest := by
  cases outer with
  | nil => rfl
  | cons frame outer => cases frame <;> rfl

/-- The items that remain go into the frame, one by one. -/
theorem run_items {v : Json} {items : List Json} (h : ∀ u ∈ v :: items, Builds u)
    (done : List Json) (outer : List Frame) (orClose : Bool) (rest : List Token) :
    run (.arr done :: outer) (.value orClose)
        ([Token.comma].intercalate (itemTokens (v :: items)) ++ .closeArr :: rest) =
      handOver outer (.arr (done.reverse ++ v :: items)) rest := by
  have hv := h v (List.mem_cons_self ..)
  induction items generalizing v done orClose with
  | nil =>
    rw [itemTokens, itemTokens, List.intercalate_singleton, hv]
    show run (.arr (v :: done) :: outer) .next (.closeArr :: rest) = _
    rw [run_closeArr, List.reverse_cons]
  | cons w items ih =>
    have hmore := fun u hu => h u (List.mem_cons_of_mem v hu)
    rw [itemTokens, itemTokens, List.intercalate_cons_cons, List.append_assoc, List.append_assoc,
      hv]
    show run (.arr (v :: done) :: outer) (.value false)
      ([Token.comma].intercalate (itemTokens (w :: items)) ++ .closeArr :: rest) = _
    rw [ih hmore (v :: done) false (hmore w (List.mem_cons_self ..)), List.reverse_cons,
      List.append_assoc]
    rfl

/-- The members that remain go into the frame, one by one. -/
theorem run_members {m : String × Json} {members : List (String × Json)}
    (h : ∀ u ∈ m :: members, Builds u.2) (done : List (String × Json)) (key : Key)
    (outer : List Frame) (orClose : Bool) (rest : List Token) :
    run (.obj done key :: outer) (.key orClose)
        ([Token.comma].intercalate (memberTokens (m :: members)) ++ .closeObj :: rest) =
      handOver outer (.obj (done.reverse ++ m :: members)) rest := by
  obtain ⟨name, v⟩ := m
  have hv := h (name, v) (List.mem_cons_self ..)
  induction members generalizing name v done key orClose with
  | nil =>
    rw [memberTokens, memberTokens, List.intercalate_singleton]
    show run (.obj done (.text name) :: outer) (.value false) (tokensOf v ++ .closeObj :: rest) = _
    rw [hv]
    show run (.obj ((name, v) :: done) (.text "") :: outer) .next (.closeObj :: rest) = _
    rw [run_closeObj, List.reverse_cons]
  | cons n members ih =>
    obtain ⟨next, w⟩ := n
    have hmore := fun u hu => h u (List.mem_cons_of_mem (name, v) hu)
    rw [memberTokens, memberTokens, List.intercalate_cons_cons, List.append_assoc,
      List.append_assoc]
    show run (.obj done (.text name) :: outer) (.value false) (tokensOf v ++ _) = _
    rw [hv]
    show run (.obj ((name, v) :: done) (.text "") :: outer) (.key false)
      ([Token.comma].intercalate (memberTokens ((next, w) :: members)) ++ .closeObj :: rest) = _
    rw [ih ((name, v) :: done) (.text "") false next w hmore (hmore _ (List.mem_cons_self ..)),
      List.reverse_cons, List.append_assoc]
    rfl

theorem run_value (v : Json) (frames : List Frame) (orClose : Bool) (rest : List Token) :
    run frames (.value orClose) (.value v :: rest) = handOver frames v rest := by
  cases frames with
  | nil => rfl
  | cons frame outer => cases frame <;> rfl

theorem run_str (s : String) (frames : List Frame) (orClose : Bool) (rest : List Token) :
    run frames (.value orClose) (.str s :: rest) = handOver frames (.str s) rest := by
  cases frames with
  | nil => rfl
  | cons frame outer => cases frame <;> rfl

theorem run_emptyArr (frames : List Frame) (rest : List Token) :
    run (.arr [] :: frames) (.value true) (.closeArr :: rest) = handOver frames (.arr []) rest := by
  cases frames with
  | nil => rfl
  | cons frame outer => cases frame <;> rfl

theorem run_emptyObj (key : Key) (frames : List Frame) (rest : List Token) :
    run (.obj [] key :: frames) (.key true) (.closeObj :: rest) =
      handOver frames (.obj []) rest := by
  cases frames with
  | nil => rfl
  | cons frame outer => cases frame <;> rfl

theorem builds_of_exact {v : Json} (h : v.Exact) : Builds v := by
  induction v using Walk.induct with
  | step v ih =>
    obtain ⟨hself, hparts⟩ := exact_iff.mp h
    intro frames orClose rest
    cases v with
    | null => exact run_value _ frames orClose rest
    | bool b => exact run_value _ frames orClose rest
    | int i => exact run_value _ frames orClose rest
    | str s => exact run_str s frames orClose rest
    | arr items =>
      rw [tokensOf, List.cons_append, List.append_assoc]
      show run (.arr [] :: frames) (.value true) (_ ++ .closeArr :: rest) = _
      cases items with
      | nil => exact run_emptyArr frames rest
      | cons v items => exact run_items (fun u hu => ih u hu (hparts u hu)) [] frames true rest
    | obj members =>
      rw [tokensOf, List.cons_append, List.append_assoc]
      show run (.obj [] (.text "") :: frames) (.key true) (_ ++ .closeObj :: rest) = _
      cases members with
      | nil => exact run_emptyObj (.text "") frames rest
      | cons m members =>
        refine run_members (fun u hu => ?_) [] (.text "") frames true rest
        have hpart : u.2 ∈ (obj (m :: members)).parts := List.mem_map_of_mem hu
        exact ih u.2 hpart (hparts u.2 hpart)
    | float x => exact absurd hself Bool.false_ne_true
    | fault reading passing => exact absurd hself Bool.false_ne_true
    | hidden v => exact absurd hself Bool.false_ne_true

/-- A text that the printer wrote is read back. -/
theorem parse_renderAt (pretty : Bool) {v : Json} (h : v.Exact) :
    parse (renderAt pretty 0 v) = ⟨v, false⟩ := by
  have htokens := lexes_renderAt pretty 0 h [] trivial
  have hbuild := builds_of_exact h [] false []
  rw [List.append_nil] at htokens hbuild
  rw [tokensFrom, List.reverse_nil, List.append_nil] at htokens
  rw [parse, tokens, htokens, hbuild]
  rfl

end Json
end SafetyLint
