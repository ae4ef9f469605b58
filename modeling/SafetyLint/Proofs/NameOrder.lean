import Mathlib.Tactic.SplitIfs
import SafetyLint.Config.Settings

/-!
# Names in order

Strings are compared by their characters, and programs that keep names as bytes compare them byte by
byte.  The two orders are the same: a greater character has a greater encoding, and the encodings
differ before either of them ends (`utf8EncodeChar_append_lt`).

The names of the required directives are sorted and come once each (`pairwise_directiveNames`), so
they are in the order of their bytes too (`bytes_lt`).
-/

namespace SafetyLint
namespace Config

/-! ## The order of bytes -/

/-- A greater character has greater bytes, whatever follows.  Where the encodings are of one length,
they are compared digit by digit to base 64. -/
theorem utf8EncodeChar_append_lt {c d : Char} (h : c < d) (cs ds : List UInt8) :
    String.utf8EncodeChar c ++ cs < String.utf8EncodeChar d ++ ds := by
  have hval : c.val.toNat < d.val.toNat := h
  have hbound : d.val.toNat < 1114112 := by
    rcases d.valid with hd | hd
    · omega
    · exact hd.2
  unfold String.utf8EncodeChar
  dsimp only
  generalize c.val.toNat = v at hval ⊢
  generalize d.val.toNat = w at hval hbound ⊢
  by_cases hfour : 65535 < v
  · rw [if_neg (by omega), if_neg (by omega), if_neg (by omega), if_neg (by omega),
      if_neg (by omega), if_neg (by omega)]
    simp only [List.cons_append, List.nil_append, List.cons_lt_cons_iff, UInt8.lt_iff_toNat_lt,
      ← UInt8.toNat_inj, UInt8.toNat_ofNat']
    -- four bytes each: the first two and the last two are compared on their own
    rcases Nat.lt_or_ge (v / 4096) (w / 4096) with hhigh | hhigh
    · omega
    · exact Or.inr ⟨by omega, Or.inr ⟨by omega, by omega⟩⟩
  · split_ifs <;>
      simp only [List.cons_append, List.nil_append, List.cons_lt_cons_iff, UInt8.lt_iff_toNat_lt,
        ← UInt8.toNat_inj, UInt8.toNat_ofNat'] <;>
      omega

theorem flatMap_utf8EncodeChar_lt {as bs : List Char} (h : as < bs) :
    as.flatMap String.utf8EncodeChar < bs.flatMap String.utf8EncodeChar := by
  induction as generalizing bs with
  | nil =>
    cases bs with
    | nil => exact absurd h (List.lt_irrefl _)
    | cons b bs =>
      rw [List.flatMap_nil, List.flatMap_cons]
      obtain ⟨x, xs, hx⟩ := List.exists_cons_of_ne_nil (String.utf8EncodeChar_ne_nil (c := b))
      rw [hx, List.cons_append]
      exact List.nil_lt_cons _ _
  | cons a as ih =>
    cases bs with
    | nil => exact absurd h (List.not_lt_nil _)
    | cons b bs =>
      rw [List.flatMap_cons, List.flatMap_cons]
      rcases List.cons_lt_cons_iff.mp h with hab | ⟨rfl, hrest⟩
      · exact utf8EncodeChar_append_lt hab _ _
      · exact List.append_left_lt (ih hrest)

/-- The bytes of a name. -/
def bytes (name : String) : List UInt8 := name.toUTF8.data.toList

theorem bytes_eq_flatMap (name : String) :
    bytes name = name.toList.flatMap String.utf8EncodeChar := by
  have hlist := congrArg String.toByteArray (String.ofList_toList (s := name))
  rw [String.toByteArray_ofList] at hlist
  rw [bytes, String.toUTF8_eq_toByteArray, ← hlist]
  exact List.toList_data_toByteArray

/-- Names are in the order of their bytes. -/
theorem bytes_lt {a b : String} (h : a < b) : bytes a < bytes b := by
  rw [bytes_eq_flatMap, bytes_eq_flatMap]
  exact flatMap_utf8EncodeChar_lt h

theorem bytes_le {a b : String} (h : a ≤ b) : bytes a ≤ bytes b := by
  by_cases hsame : a = b
  · rw [hsame]
    exact List.le_refl _
  · have hlt : a < b := by
      rw [← String.not_le]
      exact fun hge => hsame (String.le_antisymm h hge)
    exact List.le_of_lt (bytes_lt hlt)

theorem nameLe_trans (a b c : String) (hab : decide (a ≤ b) = true)
    (hbc : decide (b ≤ c) = true) : decide (a ≤ c) = true :=
  decide_eq_true (String.le_trans (of_decide_eq_true hab) (of_decide_eq_true hbc))

theorem nameLe_total (a b : String) : (decide (a ≤ b) || decide (b ≤ a)) = true := by
  rw [Bool.or_eq_true, decide_eq_true_eq, decide_eq_true_eq]
  exact String.le_total a b

/-! ## The names of the required directives -/

/-- In a list with an order, taking out what comes again leaves each name greater than those before
it. -/
theorem pairwise_lt_eraseDups :
    ∀ {names : List String}, names.Pairwise (· ≤ ·) → names.eraseDups.Pairwise (· < ·)
  | [], _ => by
    rw [List.eraseDups_nil]
    exact List.Pairwise.nil
  | a :: names, h => by
    obtain ⟨hfirst, hrest⟩ := List.pairwise_cons.mp h
    rw [List.eraseDups_cons]
    refine List.pairwise_cons.mpr ⟨fun b hb => ?_, pairwise_lt_eraseDups (hrest.filter _)⟩
    obtain ⟨hb, hne⟩ := List.mem_filter.mp (List.mem_eraseDups.mp hb)
    rw [← String.not_le]
    intro hle
    have hsame : b = a := String.le_antisymm hle (hfirst b hb)
    rw [hsame, beq_self_eq_true] at hne
    exact absurd hne Bool.false_ne_true
termination_by names => names.length
decreasing_by exact Nat.lt_succ_of_le (List.length_filter_le _ _)

namespace Settings

/-- The names of the required directives are in strict order. -/
theorem pairwise_directiveNames (settings : Settings) :
    settings.directiveNames.Pairwise (· < ·) := by
  exact pairwise_lt_eraseDups
    ((List.pairwise_mergeSort nameLe_trans nameLe_total _).imp of_decide_eq_true)

theorem mem_directiveNames {settings : Settings} {name : String} :
    name ∈ settings.directiveNames ↔ (settings.requiredDirectives.lookup name).isSome = true := by
  rw [directiveNames, sortedNames, List.mem_eraseDups, List.mem_mergeSort, List.mem_map,
    List.lookup_isSome_iff]
  constructor
  · rintro ⟨p, hp, rfl⟩
    exact ⟨p, hp, beq_self_eq_true _⟩
  · rintro ⟨p, hp, hname⟩
    exact ⟨p, hp, (eq_of_beq hname).symm⟩

end Settings

end Config
end SafetyLint
