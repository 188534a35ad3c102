import Mathlib.Data.String.Basic
import TaintFlow.Check.Compare
import TaintFlow.Report

/-
The names of findings: the name of a pattern, an underscore and a number. The number has no underscore, so
that the last underscore of a name is the one in front of the number, whatever the pattern is called: what
stands before it is the name of the pattern, and what stands after it reads back as the number.
-/
namespace TaintFlow

namespace Text

/-! ## Cutting a text at a character -/

open String in
/-- Cutting, in the midst of it: `l` is cut off, `m` is the part being read and `r` is still to come. -/
theorem splitOnAux_singleton (c : Char) (l m r : List Char) (done : List String) :
    splitOnAux (ofList (l ++ m ++ r)) (singleton c) ⟨utf8Len l⟩ ⟨utf8Len l + utf8Len m⟩ 0 done =
      done.reverse ++ (r.splitOnPPrepend (· == c) m.reverse).map ofList := by
  have hend : (singleton c).rawEndPos ≤ ⟨c.utf8Size⟩ := by simp [Pos.Raw.le_iff]
  have hget : (0 : Pos.Raw).get (singleton c) = c := by simpa using get_of_valid [] [c]
  have hnext : Pos.Raw.next (singleton c) 0 = ⟨c.utf8Size⟩ := by simpa using next_of_valid [] c []
  unfold splitOnAux
  simp only [List.append_assoc, atEnd_iff, rawEndPos_ofList, utf8Len_append, Pos.Raw.mk_le_mk,
    Nat.add_le_add_iff_left, (by omega : utf8Len m + utf8Len r ≤ utf8Len m ↔ utf8Len r = 0), utf8Len_eq_zero]
  split
  · subst r
    simpa using extract_of_valid l m []
  · obtain ⟨x, r, rfl⟩ := r.exists_cons_of_ne_nil ‹_›
    have hx : Pos.Raw.get (ofList (l ++ (m ++ x :: r))) ⟨utf8Len l + utf8Len m⟩ = x := by
      simpa [-ofList_append] using get_of_valid (l ++ m) (x :: r)
    have hstep : Pos.Raw.next (ofList (l ++ (m ++ x :: r))) ⟨utf8Len l + utf8Len m⟩ =
        ⟨utf8Len l + (utf8Len m + x.utf8Size)⟩ := by
      simpa [-ofList_append, Nat.add_assoc] using next_of_valid (l ++ m) x r
    have hpart : Pos.Raw.extract (ofList (l ++ (m ++ x :: r))) ⟨utf8Len l⟩ ⟨utf8Len l + utf8Len m⟩ = ofList m := by
      simpa [-ofList_append] using extract_of_valid l m (x :: r)
    simp only [hx, hstep, hget, hnext]
    rw [if_pos hend, List.splitOnPPrepend_cons_eq_if]
    by_cases hc : x = c
    · -- the part ends here, and the next one begins behind the character
      subst hc
      have hback : (Pos.Raw.mk (utf8Len l + (utf8Len m + x.utf8Size))).unoffsetBy ⟨x.utf8Size⟩ =
          ⟨utf8Len l + utf8Len m⟩ := by
        simp [Pos.Raw.unoffsetBy, ← Nat.add_assoc]
      have hrest := splitOnAux_singleton x (l ++ m ++ [x]) [] r (ofList m :: done)
      simp only [utf8Len_append, utf8Len_cons, utf8Len_nil] at hrest
      simpa [-ofList_append, hback, hpart, Nat.add_assoc] using hrest
    · have hback : (Pos.Raw.mk (utf8Len l + utf8Len m)).unoffsetBy 0 = ⟨utf8Len l + utf8Len m⟩ := by
        simp [Pos.Raw.unoffsetBy]
      have hrest := splitOnAux_singleton c l (m ++ [x]) r done
      simp only [utf8Len_append, utf8Len_cons, utf8Len_nil] at hrest
      simpa [-ofList_append, hc, hback, hstep, Nat.add_assoc] using hrest
termination_by r.length

/-- A text is cut where the list of its characters is. -/
theorem splitOn_singleton (s : String) (c : Char) :
    s.splitOn (String.singleton c) = (s.toList.splitOn c).map String.ofList := by
  have h := splitOnAux_singleton c [] [] s.toList []
  simpa [String.splitOn, List.splitOn_eq_splitOnP, beq_iff_eq] using h

theorem splitOn_underscore (s : String) : s.splitOn "_" = (s.toList.splitOn '_').map String.ofList :=
  splitOn_singleton s '_'

theorem splitOn_underscore_ne_nil (s : String) : s.splitOn "_" ≠ [] := by
  simp [splitOn_underscore, List.splitOn_ne_nil]

/-- The parts of a text, with the underscores between them, are the text. -/
theorem intercalate_splitOn_underscore (s : String) : "_".intercalate (s.splitOn "_") = s := by
  apply String.toList_inj.1
  rw [String.toList_intercalate, splitOn_underscore, List.map_map]
  simp [Function.comp_def]

theorem splitOn_underscore_of_not_mem {s : String} (h : '_' ∉ s.toList) : s.splitOn "_" = [s] := by
  simp [splitOn_underscore, List.splitOn_eq_singleton h]

/-- The first part of a text with an underscore is not the whole text. -/
theorem splitOn_underscore_of_mem {s : String} (h : '_' ∈ s.toList) :
    ∃ part rest, s.splitOn "_" = part :: rest ∧ part ≠ s := by
  obtain ⟨l, m, hs, hl⟩ := List.eq_append_cons_of_mem h
  refine ⟨String.ofList l, (m.splitOn '_').map String.ofList, ?_, ?_⟩
  · rw [splitOn_underscore, hs, List.splitOn_append_cons_self_of_not_mem hl, List.map_cons]
  · rintro rfl
    exact hl (by simpa using h)

/-- A text without underscores, put behind one, is the last part. -/
theorem splitOn_underscore_append {s t : String} (h : '_' ∉ t.toList) :
    (s ++ "_" ++ t).splitOn "_" = s.splitOn "_" ++ [t] := by
  have hlist : (s ++ "_" ++ t).toList = s.toList ++ '_' :: t.toList := by simp
  simp [splitOn_underscore, hlist, List.splitOn_append_cons_self, List.splitOn_eq_singleton h]

/-! ## Numbers as texts -/

theorem underscore_not_mem_toString (n : Nat) : '_' ∉ (toString n).toList := by
  rw [Nat.toString_eq_repr, Nat.toList_repr]
  exact Nat.underscore_not_in_toDigits

theorem toString_nat_injective : Function.Injective (toString : Nat → String) := by
  intro m n h
  have hdigits : Nat.toDigits 10 m = Nat.toDigits 10 n := by
    simpa [Nat.toString_eq_repr, Nat.toList_repr] using congrArg String.toList h
  simpa using congrArg (Nat.ofDigitChars 10 · 0) hdigits

theorem isBlank_of_isDigit {c : Char} (h : c.isDigit = true) : isBlank c = false := by
  simp only [Char.isDigit, ge_iff_le, Bool.and_eq_true, decide_eq_true_eq, UInt32.le_iff_toNat_le] at h
  have hlow : 48 ≤ c.toNat := h.1
  have hhigh : c.toNat ≤ 57 := h.2
  simp only [isBlank, blanks, decide_eq_false_iff_not, List.mem_cons, List.not_mem_nil, or_false]
  omega

theorem trim_of_isDigit {cs : List Char} (h : ∀ c ∈ cs, c.isDigit = true) : trim cs = cs := by
  have hdrop : ∀ {l : List Char}, (∀ c ∈ l, c.isDigit = true) → l.dropWhile isBlank = l := by
    intro l hl
    cases l with
    | nil => rfl
    | cons c l => simp [isBlank_of_isDigit (hl c (List.mem_cons_self ..))]
  rw [trim, hdrop h, hdrop (by simpa using h), List.reverse_reverse]

theorem digit?_of_isDigit {c : Char} (h : c.isDigit = true) : digit? c = some (c.toNat - '0'.toNat) := by
  simp only [Char.isDigit, ge_iff_le, Bool.and_eq_true, decide_eq_true_eq, UInt32.le_iff_toNat_le] at h
  have hlow : 48 ≤ c.toNat := h.1
  have hhigh : c.toNat ≤ 57 := h.2
  unfold digit? zeros
  rw [List.find?_cons_of_pos (by simp only [Bool.and_eq_true, decide_eq_true_eq]; omega)]
  rfl

theorem foldlM_of_isDigit {cs : List Char} (h : ∀ c ∈ cs, c.isDigit = true) (n : Nat) :
    cs.foldlM (fun n c => (digit? c).map (n * 10 + ·)) n =
      some (cs.foldl (fun n c => n * 10 + (c.toNat - '0'.toNat)) n) := by
  induction cs generalizing n with
  | nil => rfl
  | cons c cs ih =>
    rw [List.forall_mem_cons] at h
    rw [List.foldlM_cons, digit?_of_isDigit h.1]
    exact ih h.2 _

/-- A number reads back from its digits. -/
theorem integer?_toString (n : Nat) : integer? (toString n) = some (n : Int) := by
  have hdigits : ∀ c ∈ Nat.toDigits 10 n, c.isDigit = true := fun c hc =>
    Nat.isDigit_of_mem_toDigits (by decide) (by decide) hc
  have hnat : natural? (Nat.toDigits 10 n) = some n := by
    have hfold : (Nat.toDigits 10 n).foldl (fun k c => k * 10 + (c.toNat - '0'.toNat)) 0 = n := by
      simpa [Nat.ofDigitChars_eq_foldl, Nat.mul_comm] using Nat.ofDigitChars_ten_toDigits (n := n)
    rw [natural?, if_neg (by simp), foldlM_of_isDigit hdigits, hfold]
  unfold integer?
  rw [Nat.toString_eq_repr, Nat.toList_repr, trim_of_isDigit hdigits]
  split
  · -- a sign is not a digit
    rename_i hsign
    exact absurd (hdigits '-' (by simp [hsign])) (by decide)
  · rename_i hsign
    exact absurd (hdigits '+' (by simp [hsign])) (by decide)
  · simp [hnat]

end Text

/-! ## The names -/

namespace Report

/-- The name of the `n`-th finding of a pattern. -/
def numbered (pattern : String) (n : Nat) : String := pattern ++ "_" ++ toString n

theorem splitOn_numbered (pattern : String) (n : Nat) :
    (numbered pattern n).splitOn "_" = pattern.splitOn "_" ++ [toString n] :=
  Text.splitOn_underscore_append (Text.underscore_not_mem_toString n)

/-- The name of a finding up to its last underscore is the name of its pattern. -/
theorem baseName_numbered (pattern : String) (n : Nat) : Check.baseName (numbered pattern n) = pattern := by
  unfold Check.baseName
  rw [splitOn_numbered]
  split
  · -- there are two parts at least
    rename_i whole hwhole
    have hlength := congrArg List.length hwhole
    simp [Text.splitOn_underscore_ne_nil] at hlength
  · rw [List.dropLast_concat, Text.intercalate_splitOn_underscore]

theorem numbered_inj {p q : String} {m n : Nat} : numbered p m = numbered q n ↔ p = q ∧ m = n := by
  constructor
  · intro h
    have hparts := congrArg (·.splitOn "_") h
    simp only [splitOn_numbered] at hparts
    obtain ⟨-, hnumber⟩ := List.append_inj' hparts rfl
    refine ⟨?_, Text.toString_nat_injective (List.singleton_inj.1 hnumber)⟩
    rw [← baseName_numbered p m, h, baseName_numbered]
  · rintro ⟨rfl, rfl⟩
    rfl

/-- Two names of findings agree up to their numbers exactly if they are names of one pattern. -/
theorem sameName_numbered (p q : String) (m n : Nat) :
    Check.sameName (.text (numbered p m)) (.text (numbered q n)) = .ok (decide (p = q)) := by
  simp [Check.sameName, baseName_numbered, pure, Except.pure]

end Report

end TaintFlow
