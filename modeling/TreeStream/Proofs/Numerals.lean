import TreeStream.Proofs.Exact
import TreeStream.Proofs.Quoting

/-!
# Numbers in front of other text

A number is read alike in front of every text that does not go on with it, and integers are read
back from their numerals.

* `Json.Stops`: texts that no number goes on with.
* `Json.readNumber_append`: what is read of a number does not depend on such a text behind it.
* `Json.readNumber_leavesEnd`: what is left of a text is its end.
* `Json.readNumber_signedNumeral`: an integer is read from its numeral.
* `Json.isNumberChar_of_mem_writeReal`: what the numeral of a double is made of.
-/

namespace TreeStream.Json
set_option autoImplicit false
open Number (digitValue digitsValue numeral signedNumeral)

/-- The characters of numbers. -/
def isNumberChar (c : Char) : Bool :=
  c.isDigit || c = '.' || c = 'e' || c = 'E' || c = '+' || c = '-'

/-- No number goes on with the text. -/
def Stops (text : List Char) : Prop :=
  ∀ c ∈ text.head?, isNumberChar c = false

theorem stops_nil : Stops [] := by
  simp [Stops]

theorem stops_cons {c : Char} (hc : isNumberChar c = false) (cs : List Char) : Stops (c :: cs) := by
  simpa [Stops] using hc

variable {negative : Bool} {significand : Nat} {power : Int} {cs rest : List Char}

/-! ## What follows a number -/

/-- The result of a reader with a text behind what it has left. -/
def before {α : Type} (rest : List Char) (result : α × List Char) : α × List Char :=
  (result.1, result.2 ++ rest)

theorem map_before_nil {α : Type} (outcome : Except Fault (α × List Char)) :
    outcome.map (before []) = outcome := by
  cases outcome <;> simp [Except.map, before]

theorem Stops.cases (h : Stops rest) : rest = [] ∨ ∃ c more, rest = c :: more ∧
    c.isDigit = false ∧ c ≠ '.' ∧ c ≠ 'e' ∧ c ≠ 'E' ∧ c ≠ '+' ∧ c ≠ '-' := by
  cases rest with
  | nil => exact .inl rfl
  | cons c more =>
    have hc : isNumberChar c = false := h c rfl
    simp only [isNumberChar, Bool.or_eq_false_iff, decide_eq_false_iff_not] at hc
    obtain ⟨⟨⟨⟨⟨hdigit, hpoint⟩, he⟩, hE⟩, hplus⟩, hminus⟩ := hc
    exact .inr ⟨c, more, rfl, hdigit, hpoint, he, hE, hplus, hminus⟩

theorem takeWhile_append (h : Stops rest) (cs : List Char) :
    (cs ++ rest).takeWhile Char.isDigit = cs.takeWhile Char.isDigit := by
  induction cs with
  | nil =>
    obtain rfl | ⟨c, more, rfl, hdigit, -⟩ := h.cases
    · rfl
    · simp [hdigit]
  | cons c cs ih => simp only [List.cons_append, List.takeWhile_cons, ih]

theorem dropWhile_append (h : Stops rest) (cs : List Char) :
    (cs ++ rest).dropWhile Char.isDigit = cs.dropWhile Char.isDigit ++ rest := by
  induction cs with
  | nil =>
    obtain rfl | ⟨c, more, rfl, hdigit, -⟩ := h.cases
    · rfl
    · simp [hdigit]
  | cons c cs ih =>
    simp only [List.cons_append, List.dropWhile_cons, ih]
    split <;> rfl

theorem takeSignificand_append (h : Stops rest) (significand : Nat) (cs : List Char) :
    takeSignificand significand (cs ++ rest) =
      ((takeSignificand significand cs).1, (takeSignificand significand cs).2.1,
        (takeSignificand significand cs).2.2 ++ rest) := by
  induction cs generalizing significand with
  | nil =>
    obtain rfl | ⟨c, more, rfl, hdigit, -⟩ := h.cases
    · rfl
    · simp [takeSignificand, hdigit]
  | cons c cs ih =>
    simp only [List.cons_append, takeSignificand, ih]
    split <;> rfl

theorem takeSign_append (h : Stops rest) (cs : List Char) :
    Number.takeSign (cs ++ rest) =
      ((Number.takeSign cs).1, (Number.takeSign cs).2 ++ rest) := by
  rcases cs with _ | ⟨c, cs⟩
  · obtain rfl | ⟨c, more, rfl, -, -, -, -, hplus, hminus⟩ := h.cases
    · rfl
    · simp [Number.takeSign, hplus, hminus]
  · simp only [List.cons_append, Number.takeSign]
    split <;> simp_all

theorem readPower_append (h : Stops rest) (cs : List Char) :
    readPower negative significand power (cs ++ rest) =
      (readPower negative significand power cs).map (before rest) := by
  rcases cs with _ | ⟨c, cs⟩
  · obtain rfl | ⟨c, more, rfl, -, -, he, hE, -⟩ := h.cases
    · simp only [List.append_nil, readPower]
      split <;> rfl
    · simp only [List.nil_append, readPower, he, hE, or_self, if_false]
      split <;> rfl
  · simp only [List.cons_append, readPower, takeSign_append h, takeWhile_append h,
      dropWhile_append h]
    split_ifs <;> first | rfl | (split <;> rfl)

theorem readFraction_append (h : Stops rest) (cs : List Char) :
    readFraction negative significand power (cs ++ rest) =
      (readFraction negative significand power cs).map (before rest) := by
  simp only [readFraction, takeSignificand_append h, takeWhile_append h, dropWhile_append h]
  split_ifs
  · rfl
  · exact readPower_append h _

/-- The digits of a number before its point; no digit follows a zero. -/
def takeWhole (cs : List Char) : Nat × Nat × List Char :=
  match cs with
  | '0' :: rest => (0, 1, rest)
  | _ => takeSignificand 0 cs

/-- The rest of a number behind the digits before its point. -/
def readBeyond (negative : Bool) (significand dropped : Nat) (beyond : List Char) :
    Except Fault (Json × List Char) :=
  match beyond with
  | '.' :: more => readFraction negative significand dropped more
  | _ =>
    if dropped ≠ 0 ∨ beyond.head? = some 'e' ∨ beyond.head? = some 'E' then
      readPower negative significand dropped beyond
    else if !negative then .ok (.int significand, beyond)
    else if significand = 0 ∨ Nat.pow 2 63 < significand then
      .ok (signed true (Float.ofNat significand), beyond)
    else .ok (.int (-significand), beyond)

theorem readUnsigned_eq (negative : Bool) (cs : List Char) :
    readUnsigned negative cs =
      (let (significand, count, rest) := takeWhole cs
      let dropped := (rest.takeWhile Char.isDigit).length
      if count = 0 ∨ (significand = 0 ∧ dropped ≠ 0) then .error .malformed
      else readBeyond negative significand dropped (rest.dropWhile Char.isDigit)) := rfl

theorem takeWhole_cons_of_ne {c : Char} (hc : c ≠ '0') (cs : List Char) :
    takeWhole (c :: cs) = takeSignificand 0 (c :: cs) := by
  simp [takeWhole, hc]

theorem takeWhole_append (h : Stops rest) (cs : List Char) :
    takeWhole (cs ++ rest) =
      ((takeWhole cs).1, (takeWhole cs).2.1, (takeWhole cs).2.2 ++ rest) := by
  rcases cs with _ | ⟨c, cs⟩
  · obtain rfl | ⟨c, more, rfl, hdigit, -⟩ := h.cases
    · rfl
    · have hc : c ≠ '0' := by
        rintro rfl
        simp at hdigit
      rw [List.nil_append, takeWhole_cons_of_ne hc]
      simp [takeWhole, takeSignificand, hdigit]
  · by_cases hc : c = '0'
    · subst hc
      rfl
    · rw [List.cons_append, takeWhole_cons_of_ne hc, takeWhole_cons_of_ne hc, ← List.cons_append]
      exact takeSignificand_append h 0 (c :: cs)

theorem readBeyond_cons_of_ne {c : Char} (hc : c ≠ '.') (dropped : Nat) (more : List Char) :
    readBeyond negative significand dropped (c :: more) =
      if dropped ≠ 0 ∨ c = 'e' ∨ c = 'E' then
        readPower negative significand dropped (c :: more)
      else if !negative then .ok (.int significand, c :: more)
      else if significand = 0 ∨ Nat.pow 2 63 < significand then
        .ok (signed true (Float.ofNat significand), c :: more)
      else .ok (.int (-significand), c :: more) := by
  simp [readBeyond, hc]

theorem readBeyond_append (h : Stops rest) (dropped : Nat) (beyond : List Char) :
    readBeyond negative significand dropped (beyond ++ rest) =
      (readBeyond negative significand dropped beyond).map (before rest) := by
  have hpower : readPower negative significand dropped (beyond ++ rest) =
      (readPower negative significand dropped beyond).map (before rest) :=
    readPower_append h beyond
  rcases beyond with _ | ⟨c, beyond⟩
  · obtain rfl | ⟨c, more, rfl, -, hpoint, he, hE, -⟩ := h.cases
    · exact (map_before_nil _).symm
    · rw [List.nil_append] at hpower ⊢
      rw [readBeyond_cons_of_ne hpoint, hpower]
      simp only [readBeyond, he, hE, List.head?_nil, reduceCtorEq, or_self, or_false]
      split_ifs <;> rfl
  · by_cases hpoint : c = '.'
    · subst hpoint
      exact readFraction_append h beyond
    · rw [List.cons_append] at hpower
      rw [List.cons_append, readBeyond_cons_of_ne hpoint, readBeyond_cons_of_ne hpoint, hpower]
      split_ifs <;> rfl

theorem readUnsigned_append (h : Stops rest) (cs : List Char) :
    readUnsigned negative (cs ++ rest) = (readUnsigned negative cs).map (before rest) := by
  simp only [readUnsigned_eq, takeWhole_append h, takeWhile_append h, dropWhile_append h]
  split_ifs
  · rfl
  · exact readBeyond_append h _ _

theorem readNumber_cons_of_ne {c : Char} (hc : c ≠ '-') (cs : List Char) :
    readNumber (c :: cs) = readUnsigned false (c :: cs) := by
  simp [readNumber, hc]

theorem readNumber_append (h : Stops rest) (cs : List Char) :
    readNumber (cs ++ rest) = (readNumber cs).map (before rest) := by
  have hunsigned : readUnsigned false (cs ++ rest) = (readUnsigned false cs).map (before rest) :=
    readUnsigned_append h cs
  rcases cs with _ | ⟨c, cs⟩
  · obtain rfl | ⟨c, more, rfl, -, -, -, -, -, hminus⟩ := h.cases
    · exact hunsigned
    · rw [List.nil_append, readNumber_cons_of_ne hminus]
      exact hunsigned
  · by_cases hminus : c = '-'
    · subst hminus
      exact readUnsigned_append h cs
    · rw [List.cons_append, readNumber_cons_of_ne hminus, readNumber_cons_of_ne hminus]
      exact hunsigned

/-! ## What is left of a number -/

theorem takeSignificand_suffix (significand : Nat) (cs : List Char) :
    (takeSignificand significand cs).2.2 <:+ cs := by
  induction cs generalizing significand with
  | nil => exact List.suffix_rfl
  | cons c cs ih =>
    simp only [takeSignificand]
    split
    · exact (ih _).trans (List.suffix_cons c cs)
    · exact List.suffix_rfl

theorem takeSign_suffix (cs : List Char) : (Number.takeSign cs).2 <:+ cs := by
  unfold Number.takeSign
  split
  · exact List.suffix_cons _ _
  · exact List.suffix_cons _ _
  · exact List.suffix_rfl

/-- A reader that succeeds leaves the end of the text. -/
def LeavesEnd {α : Type} (cs : List Char) (outcome : Except Fault (α × List Char)) : Prop :=
  ∀ result left, outcome = .ok (result, left) → left <:+ cs

theorem LeavesEnd.error {α : Type} {fault : Fault} :
    LeavesEnd cs (.error fault : Except Fault (α × List Char)) := by
  intro result left h
  cases h

theorem LeavesEnd.ok {α : Type} {result : α} {left : List Char} (h : left <:+ cs) :
    LeavesEnd cs (.ok (result, left)) := by
  intro result left' heq
  cases heq
  exact h

theorem LeavesEnd.trans {α : Type} {outcome : Except Fault (α × List Char)} {more : List Char}
    (h : LeavesEnd more outcome) (hmore : more <:+ cs) : LeavesEnd cs outcome :=
  fun result left heq => (h result left heq).trans hmore

theorem readPower_leavesEnd (cs : List Char) :
    LeavesEnd cs (readPower negative significand power cs) := by
  rcases cs with _ | ⟨c, cs⟩
  · simp only [readPower]
    split
    · exact .ok List.suffix_rfl
    · exact .error
  · have hdigits : (Number.takeSign cs).2.dropWhile Char.isDigit <:+ c :: cs :=
      (List.dropWhile_suffix _).trans ((takeSign_suffix cs).trans (List.suffix_cons c cs))
    simp only [readPower]
    split_ifs
    · exact .error
    · split
      · exact .ok hdigits
      · exact .error
    · split
      · exact .ok hdigits
      · exact .error
    · exact .error
    · exact .ok hdigits
    · split
      · exact .ok List.suffix_rfl
      · exact .error

theorem readFraction_leavesEnd (cs : List Char) :
    LeavesEnd cs (readFraction negative significand power cs) := by
  simp only [readFraction]
  split_ifs
  · exact .error
  · exact (readPower_leavesEnd _).trans
      ((List.dropWhile_suffix _).trans (takeSignificand_suffix _ cs))

theorem readBeyond_leavesEnd (dropped : Nat) (cs : List Char) :
    LeavesEnd cs (readBeyond negative significand dropped cs) := by
  unfold readBeyond
  split
  · exact (readFraction_leavesEnd _).trans (List.suffix_cons _ _)
  · split_ifs
    · exact readPower_leavesEnd cs
    · exact .ok List.suffix_rfl
    · exact .ok List.suffix_rfl
    · exact .ok List.suffix_rfl

theorem takeWhole_suffix (cs : List Char) : (takeWhole cs).2.2 <:+ cs := by
  unfold takeWhole
  split
  · exact List.suffix_cons _ _
  · exact takeSignificand_suffix 0 cs

theorem readUnsigned_leavesEnd (cs : List Char) : LeavesEnd cs (readUnsigned negative cs) := by
  simp only [readUnsigned_eq]
  split_ifs
  · exact .error
  · exact (readBeyond_leavesEnd _ _).trans
      ((List.dropWhile_suffix _).trans (takeWhole_suffix cs))

theorem readNumber_leavesEnd (cs : List Char) : LeavesEnd cs (readNumber cs) := by
  unfold readNumber
  split
  · exact (readUnsigned_leavesEnd _).trans (List.suffix_cons _ _)
  · exact readUnsigned_leavesEnd cs

/-! ## Integers -/

theorem digitsValue_numeral (n : Nat) : digitsValue (numeral n) = n :=
  Nat.ofDigitChars_ten_toDigits

theorem isDigit_of_mem_numeral {n : Nat} {c : Char} (hc : c ∈ numeral n) : c.isDigit :=
  Nat.isDigit_of_mem_toDigits (by decide) (by decide) hc

theorem numeral_head_ne_zero {n : Nat} (hn : 0 < n) : (numeral n).head? ≠ some '0' := by
  induction n using Nat.strongRecOn with
  | ind n ih =>
    rcases Nat.lt_or_ge n 10 with hsmall | hbig
    · rw [numeral, Nat.toDigits_of_lt_base hsmall]
      interval_cases n <;> decide
    · have hhead := ih (n / 10) (by omega) (by omega)
      rw [numeral, Nat.toDigits_of_base_le (by decide) hbig, List.head?_append]
      rw [numeral] at hhead
      cases hdigits : (Nat.toDigits 10 (n / 10)).head? with
      | none => simp at hdigits
      | some c => simpa [hdigits] using hhead

theorem le_foldl_digits (digits : List Char) (n : Nat) :
    n ≤ digits.foldl (fun n c => 10 * n + digitValue c) n := by
  induction digits generalizing n with
  | nil => exact Nat.le_refl n
  | cons c digits ih => exact Nat.le_trans (by omega) (ih (10 * n + digitValue c))

theorem takeSignificand_digits {digits : List Char} (hdigits : ∀ c ∈ digits, c.isDigit)
    (hfits : digits.foldl (fun n c => 10 * n + digitValue c) significand < 2 ^ 64) :
    takeSignificand significand digits =
      (digits.foldl (fun n c => 10 * n + digitValue c) significand, digits.length, []) := by
  induction digits generalizing significand with
  | nil => rfl
  | cons c digits ih =>
    -- The value grows with every digit, so one that fits in the end fits here.
    have hnext : 10 * significand + digitValue c < 2 ^ 64 :=
      Nat.lt_of_le_of_lt (le_foldl_digits digits _) hfits
    have hmore := ih (fun d hd => hdigits d (List.mem_cons_of_mem _ hd)) hfits
    have hc := hdigits c List.mem_cons_self
    simp only [takeSignificand, Nat.pow_eq, hc, hnext, true_and, if_true, hmore]
    rfl

theorem takeWhole_numeral {n : Nat} (hfits : n < 2 ^ 64) :
    takeWhole (numeral n) = (n, (numeral n).length, []) := by
  rcases Nat.eq_zero_or_pos n with rfl | hpos
  · rfl
  · have hvalue : (numeral n).foldl (fun n c => 10 * n + digitValue c) 0 = n :=
      digitsValue_numeral n
    have htake : takeSignificand 0 (numeral n) = (n, (numeral n).length, []) := by
      rw [takeSignificand_digits (fun c => isDigit_of_mem_numeral) (by rwa [hvalue]), hvalue]
    rw [← htake]
    have hhead := numeral_head_ne_zero hpos
    rcases hdigits : numeral n with _ | ⟨c, digits⟩
    · rfl
    · rw [hdigits] at hhead
      exact takeWhole_cons_of_ne (by simpa using hhead) digits

theorem readUnsigned_numeral {n : Nat} (hfits : n < 2 ^ 64) :
    readUnsigned negative (numeral n) = readBeyond negative n 0 [] := by
  have hlength : (numeral n).length ≠ 0 := Nat.ne_of_gt Nat.length_toDigits_pos
  rw [readUnsigned_eq, takeWhole_numeral hfits]
  simp [hlength]

theorem readNumber_numeral {n : Nat} (hfits : n < 2 ^ 64) :
    readNumber (numeral n) = .ok (.int n, []) := by
  have hread : readUnsigned false (numeral n) = readBeyond false n 0 [] :=
    readUnsigned_numeral hfits
  have hdigit := fun c => isDigit_of_mem_numeral (n := n) (c := c)
  rcases hdigits : numeral n with _ | ⟨c, digits⟩
  · exact absurd hdigits Nat.toDigits_ne_nil
  · rw [hdigits] at hread hdigit
    have hc : c ≠ '-' := by
      rintro rfl
      exact absurd (hdigit '-' List.mem_cons_self) (by decide)
    rw [readNumber_cons_of_ne hc, hread]
    rfl

theorem readNumber_signedNumeral {i : Int} (hfits : i.natAbs < 2 ^ 63) :
    readNumber (signedNumeral i) = .ok (.int i, []) := by
  unfold signedNumeral
  split
  · have hread : readUnsigned true (numeral i.natAbs) = readBeyond true i.natAbs 0 [] :=
      readUnsigned_numeral (by omega)
    have hint : ¬ (i.natAbs = 0 ∨ 2 ^ 63 < i.natAbs) := by omega
    have hi : -(i.natAbs : Int) = i := by omega
    rw [readNumber, hread]
    simp only [readBeyond, Nat.pow_eq, hint, hi]
    rfl
  · have hi : (i.natAbs : Int) = i := by omega
    rw [readNumber_numeral (by omega), hi]

/-! ## The characters of numerals -/

theorem isNumberChar_of_isDigit {c : Char} (h : c.isDigit) : isNumberChar c := by
  simp [isNumberChar, h]

theorem isNumberChar_of_mem_numeral {n : Nat} : ∀ c ∈ numeral n, isNumberChar c :=
  fun _ hc => isNumberChar_of_isDigit (isDigit_of_mem_numeral hc)

theorem isNumberChar_of_mem_signedNumeral (i : Int) : ∀ c ∈ signedNumeral i, isNumberChar c := by
  have hminus : isNumberChar '-' := by decide
  intro c hc
  unfold signedNumeral at hc
  split at hc
  · rcases List.mem_cons.1 hc with rfl | hc
    · exact hminus
    · exact isNumberChar_of_mem_numeral c hc
  · exact isNumberChar_of_mem_numeral c hc

theorem isNumberChar_of_mem_positional {digits wholeEnd : List Char}
    (hdigits : ∀ c ∈ digits, isNumberChar c) (hend : ∀ c ∈ wholeEnd, isNumberChar c) (place : Int) :
    ∀ c ∈ Number.positional digits place wholeEnd, isNumberChar c := by
  have hzero : isNumberChar '0' := by decide
  have hpoint : isNumberChar '.' := by decide
  intro c hc
  simp only [Number.positional] at hc
  split_ifs at hc
  · simp only [List.mem_append, List.mem_cons, List.not_mem_nil, or_false,
      List.mem_replicate] at hc
    rcases hc with ((rfl | rfl) | ⟨-, rfl⟩) | hc
    · exact hzero
    · exact hpoint
    · exact hzero
    · exact hdigits c hc
  · simp only [List.mem_append, List.mem_replicate] at hc
    rcases hc with (hc | ⟨-, rfl⟩) | hc
    · exact hdigits c hc
    · exact hzero
    · exact hend c hc
  · simp only [List.mem_append, List.mem_singleton] at hc
    rcases hc with (hc | rfl) | hc
    · exact hdigits c (List.mem_of_mem_take hc)
    · exact hpoint
    · exact hdigits c (List.mem_of_mem_drop hc)

theorem isNumberChar_of_mem_scientific {digits : List Char}
    (hdigits : ∀ c ∈ digits, isNumberChar c) (power : Int) :
    ∀ c ∈ Number.scientific digits power, isNumberChar c := by
  have hmarks : isNumberChar 'e' ∧ isNumberChar '-' ∧ isNumberChar '+' ∧ isNumberChar '.' := by
    decide
  intro c hc
  simp only [Number.scientific, List.mem_append, List.mem_cons, List.not_mem_nil, or_false] at hc
  rcases hc with ((hc | hc) | rfl | hc) | hc
  · exact hdigits c (List.mem_of_mem_take hc)
  · split at hc
    · cases hc
    · rcases List.mem_cons.1 hc with rfl | hc
      · exact hmarks.2.2.2
      · exact hdigits c (List.mem_of_mem_drop hc)
  · exact hmarks.1
  · split at hc <;> subst hc
    · exact hmarks.2.1
    · exact hmarks.2.2.1
  · exact isNumberChar_of_mem_numeral c hc

theorem isNumberChar_of_mem_finite (negative : Bool) (mantissa : Nat) (exponent : Int) :
    ∀ c ∈ layout.finite negative mantissa exponent, isNumberChar c := by
  have hminus : isNumberChar '-' := by decide
  have hsign : ∀ c ∈ (if negative then ['-'] else []), isNumberChar c := by
    cases negative <;> simp [hminus]
  have hend : ∀ c ∈ layout.wholeEnd, isNumberChar c := by simp [layout, isNumberChar]
  have hzero : ∀ c ∈ ['0'], isNumberChar c := by simp [isNumberChar]
  intro c hc
  by_cases hm : mantissa = 0
  · simp only [Number.Layout.finite, hm, if_true] at hc
    rcases List.mem_append.1 hc with hc | hc
    · exact hsign c hc
    · exact isNumberChar_of_mem_positional hzero hend 1 c hc
  · simp only [Number.Layout.finite, hm, if_false] at hc
    rcases List.mem_append.1 hc with hc | hc
    · exact hsign c hc
    · split at hc
      · exact isNumberChar_of_mem_positional isNumberChar_of_mem_numeral hend _ c hc
      · exact isNumberChar_of_mem_scientific isNumberChar_of_mem_numeral _ c hc

/-! ## Numbers as values -/

theorem isNumberChar_of_mem_writeReal {x : Float} (h : x.isFinite) :
    ∀ c ∈ writeReal x, isNumberChar c := by
  obtain ⟨negative, mantissa, exponent, hshape⟩ := Number.shape_of_isFinite h
  rw [writeReal, if_pos h, Number.Layout.write, hshape]
  exact isNumberChar_of_mem_finite negative mantissa exponent

theorem isBlank_of_isNumberChar {c : Char} (h : isNumberChar c) : isBlank c = false := by
  rw [Bool.eq_false_iff]
  intro hblank
  simp only [isBlank, Bool.or_eq_true, decide_eq_true_eq] at hblank
  rcases hblank with ((rfl | rfl) | rfl) | rfl <;> exact absurd h (by decide)

theorem ne_of_isNumberChar {c d : Char} (h : isNumberChar c) (hd : isNumberChar d = false) :
    c ≠ d := by
  rintro rfl
  rw [hd] at h
  cases h

theorem readValue_cons_of_scalar {c : Char} (hblank : isBlank c = false) (hbracket : c ≠ '[')
    (hbrace : c ≠ '\x7b') (count depth : Nat) (cs : List Char) :
    readValue count depth (c :: cs) = readScalar (c :: cs) := by
  cases depth with
  | zero => rw [readValue, skipBlanks_cons hblank]
  | succ depth => simp [readValue, skipBlanks_cons hblank, hbracket, hbrace]

/-- A text that begins like a number is read as a number. -/
theorem readValue_cons_of_isNumberChar {c : Char} (h : isNumberChar c) (count depth : Nat)
    (cs : List Char) : readValue count depth (c :: cs) = readNumber (c :: cs) := by
  have hn := ne_of_isNumberChar (d := 'n') h (by decide)
  have ht := ne_of_isNumberChar (d := 't') h (by decide)
  have hf := ne_of_isNumberChar (d := 'f') h (by decide)
  have hquote := ne_of_isNumberChar (d := '"') h (by decide)
  rw [readValue_cons_of_scalar (isBlank_of_isNumberChar h) (ne_of_isNumberChar h (by decide))
    (ne_of_isNumberChar h (by decide))]
  simp [readScalar, hn, ht, hf, hquote]

/-- A text of number characters that is one value is one number. -/
theorem readNumber_of_parse {json : Json} (hchars : ∀ c ∈ cs, isNumberChar c)
    (hparse : parse (String.ofList cs) = .ok json) : readNumber cs = .ok (json, []) := by
  have hread : readValue cs.length maxDepth cs = readNumber cs := by
    rcases cs with _ | ⟨c, cs⟩
    · rfl
    · exact readValue_cons_of_isNumberChar (hchars c List.mem_cons_self) _ _ cs
  rw [parse, whole, String.toList_ofList, hread] at hparse
  rcases hnumber : readNumber cs with fault | ⟨result, left⟩
  · simp [hnumber, bind, Except.bind] at hparse
  · simp only [hnumber, bind, Except.bind] at hparse
    split at hparse
    · rename_i hblank
      have hleft : left = [] := by
        rcases left with _ | ⟨c, left⟩
        · rfl
        · have hmem := (readNumber_leavesEnd cs _ _ hnumber).subset List.mem_cons_self
          simp [skipBlanks, isBlank_of_isNumberChar (hchars c hmem)] at hblank
      cases hparse
      rw [hleft]
    · cases hparse

end TreeStream.Json
