import Mathlib.Data.List.Chain
import Mathlib.Data.List.TakeWhile
import TreeStream.Expr.Token

/-!
# Spellings of tokens

A text spells some tokens when it consists of their spellings, with blanks anywhere between them.

* `Token.Spelled` and `Token.Spells`: the spellings of one token and of some.
* `Token.spells_of_scan`: the tokens that are found in a text are spelled by it.
* `Token.joins`: one token does not run into another without a blank between them.
* `Token.scan_of_spells`: tokens that do not run into each other are found in what spells them.
-/

namespace TreeStream
set_option autoImplicit false

/-- The ways to write a symbol. -/
def Symbol.spellings : Symbol → List (List Char)
  | .semicolon => [[';']]
  | .comma => [[',']]
  | .colon => [[':']]
  | .dot => [['.']]
  | .leftParen => [['(']]
  | .rightParen => [[')']]
  | .leftBracket => [['[']]
  | .rightBracket => [[']']]
  | .leftBrace => [['\x7b']]
  | .rightBrace => [['\x7d']]
  | .assign => [['=']]
  | .or => [['|', '|']]
  | .and => [['&', '&']]
  | .eq => [['=', '='], ['=', '=', '=']]
  | .ne => [['!', '='], ['!', '=', '=']]
  | .le => [['<', '=']]
  | .ge => [['>', '=']]
  | .lt => [['<']]
  | .gt => [['>']]
  | .plus => [['+']]
  | .minus => [['-']]
  | .star => [['*']]
  | .slash => [['/']]
  | .percent => [['%']]
  | .bang => [['!']]

/-- The spelling of the symbol may go on with an equals sign. -/
def Symbol.takesEquals : Symbol → Bool
  | .assign | .eq | .ne | .bang | .lt | .gt => true
  | _ => false

namespace Token

/-- The words that are no names. -/
def keywords : List (List Char) :=
  [['n', 'u', 'l', 'l'], ['t', 'r', 'u', 'e'], ['f', 'a', 'l', 's', 'e']]

/-- What stands between two quotes for a content: any character but the quote and the backslash
stands for itself, and any character may follow a backslash. -/
inductive Quoted (quote : Char) : List Char → List Char → Prop
  | nil : Quoted quote [] []
  | plain {c : Char} {content text : List Char} (hquote : c ≠ quote) (hslash : c ≠ '\\')
      (hrest : Quoted quote content text) : Quoted quote (c :: content) (c :: text)
  | escaped {c : Char} {content text : List Char} (hrest : Quoted quote content text) :
      Quoted quote (unescape c :: content) ('\\' :: c :: text)

/-- The spellings of a token. -/
inductive Spelled : Token → List Char → Prop
  | null : Spelled .null ['n', 'u', 'l', 'l']
  | true : Spelled (.bool true) ['t', 'r', 'u', 'e']
  | false : Spelled (.bool false) ['f', 'a', 'l', 's', 'e']
  | ident {c : Char} {cs : List Char} (hstart : isNameStart c) (hname : ∀ d ∈ cs, isNameChar d)
      (hword : c :: cs ∉ keywords) : Spelled (.ident (String.ofList (c :: cs))) (c :: cs)
  | whole {digits : List Char} (hne : digits ≠ []) (hdigits : ∀ d ∈ digits, d.isDigit) :
      Spelled (.num (Number.nearestDecimal digits [] 0)) digits
  | fraction {digits fraction : List Char} (hne : digits ≠ []) (hdigits : ∀ d ∈ digits, d.isDigit)
      (hfraction : fraction ≠ []) (hmore : ∀ d ∈ fraction, d.isDigit) :
      Spelled (.num (Number.nearestDecimal digits fraction 0)) (digits ++ '.' :: fraction)
  | str {quote : Char} {content text : List Char} (hquote : quote = '"' ∨ quote = '\'')
      (htext : Quoted quote content text) :
      Spelled (.str (String.ofList content)) (quote :: (text ++ [quote]))
  | symbol {s : Symbol} {text : List Char} (htext : text ∈ s.spellings) : Spelled (.symbol s) text

/-- The spellings of tokens, with any blanks around them. -/
inductive Spells : List Token → List Char → Prop
  | nil {blanks : List Char} (hblanks : ∀ c ∈ blanks, isBlank c) : Spells [] blanks
  | cons {blanks text rest : List Char} {token : Token} {tokens : List Token}
      (hblanks : ∀ c ∈ blanks, isBlank c) (htoken : Spelled token text)
      (hrest : Spells tokens rest) : Spells (token :: tokens) (blanks ++ text ++ rest)

/-! ## What is found is spelled -/

theorem spelled_ofWord {c : Char} {cs : List Char} (hstart : isNameStart c)
    (hname : ∀ d ∈ cs, isNameChar d) : Spelled (ofWord (c :: cs)) (c :: cs) := by
  unfold ofWord
  split
  · rename_i hword
    rw [hword]
    exact .null
  · split
    · rename_i hword
      rw [hword]
      exact .true
    · split
      · rename_i hword
        rw [hword]
        exact .false
      · rename_i hnull htrue hfalse
        exact .ident hstart hname (by simp [keywords, hnull, htrue, hfalse])

theorem quoted_of_scanString {quote : Char} {cs content rest : List Char}
    (h : scanString quote cs = some (content, rest)) :
    ∃ text, cs = text ++ quote :: rest ∧ Quoted quote content text := by
  fun_induction scanString quote cs generalizing content rest with
  | case1 => simp at h
  | case2 c cs ih =>
    obtain ⟨⟨inner, after⟩, hinner, heq⟩ := Option.map_eq_some_iff.1 h
    obtain ⟨rfl, rfl⟩ := Prod.mk.inj heq
    obtain ⟨text, rfl, htext⟩ := ih hinner
    exact ⟨'\\' :: c :: text, rfl, .escaped htext⟩
  | case3 cs hnot =>
    obtain ⟨rfl, rfl⟩ : [] = content ∧ cs = rest := by simpa using h
    exact ⟨[], rfl, .nil⟩
  | case4 => simp at h
  | case5 c cs hnot hquote hslash ih =>
    obtain ⟨⟨inner, after⟩, hinner, heq⟩ := Option.map_eq_some_iff.1 h
    obtain ⟨rfl, rfl⟩ := Prod.mk.inj heq
    obtain ⟨text, rfl, htext⟩ := ih hinner
    exact ⟨c :: text, rfl, .plain hquote hslash htext⟩

theorem spelled_of_scanNumber {c : Char} {cs rest : List Char} {token : Token} (hc : c.isDigit)
    (h : scanNumber (c :: cs) = (token, rest)) :
    ∃ text, c :: cs = text ++ rest ∧ Spelled token text := by
  have hdigits : ∀ d ∈ (c :: cs).takeWhile Char.isDigit, d.isDigit :=
    fun d hd => List.mem_takeWhile_imp hd
  have hne : (c :: cs).takeWhile Char.isDigit ≠ [] := by simp [hc]
  have hsplit := (List.takeWhile_append_dropWhile (p := Char.isDigit) (l := c :: cs)).symm
  unfold scanNumber at h
  dsimp only at h
  split at h
  · rename_i more hmore
    split at h
    · obtain ⟨rfl, rfl⟩ := Prod.mk.inj h
      exact ⟨_, hsplit, .whole hne hdigits⟩
    · rename_i hfraction
      obtain ⟨rfl, rfl⟩ := Prod.mk.inj h
      refine ⟨(c :: cs).takeWhile Char.isDigit ++ '.' :: more.takeWhile Char.isDigit, ?_,
        .fraction hne hdigits (by simpa using hfraction) fun d hd => List.mem_takeWhile_imp hd⟩
      rw [List.append_assoc, List.cons_append, List.takeWhile_append_dropWhile, ← hmore]
      exact hsplit
  · obtain ⟨rfl, rfl⟩ := Prod.mk.inj h
    exact ⟨_, hsplit, .whole hne hdigits⟩

theorem spelled_of_scanSymbol? {cs rest : List Char} {s : Symbol}
    (h : scanSymbol? cs = some (s, rest)) : ∃ text ∈ s.spellings, cs = text ++ rest := by
  unfold scanSymbol? at h
  split at h <;> simp at h <;> obtain ⟨rfl, rfl⟩ := h <;> simp [Symbol.spellings]

theorem spelled_of_next? {cs rest : List Char} {token : Token} (h : next? cs = some (token, rest)) :
    ∃ text, cs = text ++ rest ∧ Spelled token text := by
  cases cs with
  | nil => simp [next?] at h
  | cons c cs =>
    rw [next?] at h
    split at h
    · rename_i hstart
      obtain ⟨rfl, rfl⟩ := Prod.mk.inj (Option.some.inj h)
      refine ⟨c :: cs.takeWhile isNameChar, ?_, spelled_ofWord hstart ?_⟩
      · rw [List.cons_append, List.takeWhile_append_dropWhile]
      · exact fun d hd => List.mem_takeWhile_imp hd
    · split at h
      · rename_i hdigit
        exact spelled_of_scanNumber hdigit (Option.some.inj h)
      · split at h
        · rename_i hquote
          obtain ⟨⟨content, after⟩, hstring, heq⟩ := Option.map_eq_some_iff.1 h
          obtain ⟨rfl, rfl⟩ := Prod.mk.inj heq
          obtain ⟨text, rfl, htext⟩ := quoted_of_scanString hstring
          exact ⟨c :: (text ++ [c]), by simp, .str hquote htext⟩
        · obtain ⟨⟨s, after⟩, hsymbol, heq⟩ := Option.map_eq_some_iff.1 h
          obtain ⟨rfl, rfl⟩ := Prod.mk.inj heq
          obtain ⟨text, htext, hsplit⟩ := spelled_of_scanSymbol? hsymbol
          exact ⟨text, hsplit, .symbol htext⟩

theorem spells_of_scanAtMost {count : Nat} {cs : List Char} {tokens : List Token}
    (h : scanAtMost count cs = some tokens) : Spells tokens cs := by
  induction count generalizing cs tokens with
  | zero =>
    rw [scanAtMost] at h
    split at h
    · rename_i hend
      obtain rfl : [] = tokens := Option.some.inj h
      refine .nil fun c hc => ?_
      exact List.dropWhile_eq_nil_iff.1 (List.isEmpty_iff.1 hend) c hc
    · simp at h
  | succ count ih =>
    have hsplit := (List.takeWhile_append_dropWhile (p := isBlank) (l := cs)).symm
    have hblanks : ∀ c ∈ cs.takeWhile isBlank, isBlank c := fun c hc => List.mem_takeWhile_imp hc
    rw [scanAtMost] at h
    split at h
    · rename_i hend
      obtain rfl : [] = tokens := Option.some.inj h
      exact .nil (List.dropWhile_eq_nil_iff.1 hend)
    · rename_i c more hmore
      rcases hnext : next? (c :: more) with _ | ⟨token, rest⟩ <;> rw [hnext] at h
      · simp at h
      · obtain ⟨others, hothers, rfl⟩ := Option.map_eq_some_iff.1 h
        obtain ⟨text, htext, hspelled⟩ := spelled_of_next? hnext
        rw [hsplit, hmore, htext, ← List.append_assoc]
        exact .cons hblanks hspelled (ih hothers)

theorem spells_of_scan {cs : List Char} {tokens : List Token} (h : scan cs = some tokens) :
    Spells tokens cs :=
  spells_of_scanAtMost h

/-! ## What is spelled is found -/

theorem takeWhile_append {p : Char → Bool} {cs rest : List Char} (hcs : ∀ c ∈ cs, p c)
    (hrest : ∀ c ∈ rest.head?, p c = false) :
    (cs ++ rest).takeWhile p = cs ∧ (cs ++ rest).dropWhile p = rest := by
  have hstop : rest.takeWhile p = [] ∧ rest.dropWhile p = rest := by
    cases rest with
    | nil => exact ⟨rfl, rfl⟩
    | cons c rest => simp [hrest c rfl]
  rw [List.takeWhile_append_of_pos hcs, List.dropWhile_append_of_pos hcs, hstop.1, hstop.2,
    List.append_nil]
  exact ⟨rfl, rfl⟩

theorem next?_word {c : Char} {cs rest : List Char} (hstart : isNameStart c)
    (hname : ∀ d ∈ cs, isNameChar d) (hrest : ∀ d ∈ rest.head?, isNameChar d = false) :
    next? (c :: cs ++ rest) = some (ofWord (c :: cs), rest) := by
  obtain ⟨htake, hdrop⟩ := takeWhile_append hname hrest
  rw [List.cons_append, next?, if_pos hstart, htake, hdrop]

theorem isNameStart_of_isDigit {c : Char} (h : c.isDigit) : isNameStart c = false := by
  have hne : c ≠ '_' ∧ c ≠ '$' := by
    constructor <;> rintro rfl <;> revert h <;> decide
  have hnine : c.val.toNat ≤ 57 := by
    simp only [Char.isDigit, Bool.and_eq_true, decide_eq_true_eq, UInt32.le_iff_toNat_le] at h
    exact h.2
  have halpha : c.isAlpha = false := by
    rw [Bool.eq_false_iff]
    intro halpha
    rcases (Bool.or_eq_true c.isUpper c.isLower).mp halpha with hupper | hlower
    · have hfrom : 65 ≤ c.val.toNat := (of_decide_eq_true hupper).1
      omega
    · have hfrom : 97 ≤ c.val.toNat := of_decide_eq_true (Bool.and_eq_true_iff.1 hlower).1
      omega
  simp [isNameStart, halpha, hne]

theorem next?_digits {digits rest : List Char} (hne : digits ≠ [])
    (hdigits : ∀ d ∈ digits, d.isDigit) :
    next? (digits ++ rest) = some (scanNumber (digits ++ rest)) := by
  obtain ⟨d, ds, rfl⟩ := List.exists_cons_of_ne_nil hne
  have hd := hdigits d List.mem_cons_self
  rw [List.cons_append, next?, isNameStart_of_isDigit hd, if_neg (by simp), if_pos hd]

theorem scanString_append {quote : Char} {content text : List Char} (hquote : quote ≠ '\\')
    (h : Quoted quote content text) (rest : List Char) :
    scanString quote (text ++ quote :: rest) = some (content, rest) := by
  induction h with
  | nil => simp [scanString, hquote]
  | @plain c content text hne hslash _ ih => simp [scanString, hne, hslash, ih]
  | @escaped c content text _ ih => simp [scanString, ih]

theorem scanSymbol?_append {s : Symbol} {text rest : List Char} (htext : text ∈ s.spellings)
    (hrest : s.takesEquals → ∀ c ∈ rest.head?, c ≠ '=') :
    scanSymbol? (text ++ rest) = some (s, rest) := by
  have hnext : s.takesEquals → ∀ more, rest ≠ '=' :: more := by
    rintro htakes more rfl
    exact hrest htakes '=' rfl rfl
  cases s with
  | assign =>
    obtain rfl := List.mem_singleton.1 htext
    simp [scanSymbol?, hnext rfl]
  | eq =>
    obtain rfl | rfl : text = ['=', '='] ∨ text = ['=', '=', '='] := by
      simpa [Symbol.spellings] using htext
    · simp [scanSymbol?, hnext rfl]
    · rfl
  | ne =>
    obtain rfl | rfl : text = ['!', '='] ∨ text = ['!', '=', '='] := by
      simpa [Symbol.spellings] using htext
    · simp [scanSymbol?, hnext rfl]
    · rfl
  | lt =>
    obtain rfl := List.mem_singleton.1 htext
    simp [scanSymbol?, hnext rfl]
  | gt =>
    obtain rfl := List.mem_singleton.1 htext
    simp [scanSymbol?, hnext rfl]
  | bang =>
    obtain rfl := List.mem_singleton.1 htext
    simp [scanSymbol?, hnext rfl]
  | _ =>
    obtain rfl := List.mem_singleton.1 htext
    rfl

/-- What of a token decides how it is written next to another. -/
inductive Shape where
  | word
  | number
  | string
  | symbol (s : Symbol)
deriving Repr, DecidableEq, Inhabited

def shape : Token → Shape
  | .null | .bool _ | .ident _ => .word
  | .num _ => .number
  | .str _ => .string
  | .symbol s => .symbol s

/-- A spelling of this shape ends where the rest of the text begins. -/
def Shape.EndsBefore (rest : List Char) : Shape → Prop
  | .word => ∀ c ∈ rest.head?, isNameChar c = false
  | .number => (∀ c ∈ rest.head?, c.isDigit = false) ∧
      ∀ c more, rest = '.' :: c :: more → c.isDigit = false
  | .string => True
  | .symbol s => s.takesEquals → ∀ c ∈ rest.head?, c ≠ '='

theorem scanNumber_whole {digits rest : List Char} (hdigits : ∀ d ∈ digits, d.isDigit)
    (hends : Shape.number.EndsBefore rest) :
    scanNumber (digits ++ rest) = (.num (Number.nearestDecimal digits [] 0), rest) := by
  obtain ⟨htake, hdrop⟩ := takeWhile_append hdigits hends.1
  simp only [scanNumber, htake, hdrop]
  split
  · rename_i more
    have hnone : more.takeWhile Char.isDigit = [] := by
      cases more with
      | nil => rfl
      | cons c more => simp [hends.2 c more rfl]
    rw [hnone]
    rfl
  · rfl

theorem scanNumber_fraction {digits fraction rest : List Char} (hdigits : ∀ d ∈ digits, d.isDigit)
    (hfraction : fraction ≠ []) (hmore : ∀ d ∈ fraction, d.isDigit)
    (hends : Shape.number.EndsBefore rest) :
    scanNumber (digits ++ '.' :: (fraction ++ rest)) =
      (.num (Number.nearestDecimal digits fraction 0), rest) := by
  have hpoint : ∀ c ∈ ('.' :: (fraction ++ rest)).head?, c.isDigit = false := by
    simp
  obtain ⟨htake, hdrop⟩ := takeWhile_append hdigits hpoint
  obtain ⟨htake', hdrop'⟩ := takeWhile_append hmore hends.1
  simp [scanNumber, htake, hdrop, htake', hdrop', hfraction]

/-- The first character of a spelling of this shape. -/
def Shape.Begins (c : Char) : Shape → Prop
  | .word => isNameStart c
  | .number => c.isDigit
  | .string => c = '"' ∨ c = '\''
  | .symbol s => c ∈ s.spellings.filterMap List.head?

theorem Spelled.begins {token : Token} {text : List Char} (h : Spelled token text) :
    ∃ c cs, text = c :: cs ∧ token.shape.Begins c := by
  have hdigit : ∀ {digits : List Char}, digits ≠ [] → (∀ d ∈ digits, d.isDigit) →
      ∃ c cs, digits = c :: cs ∧ c.isDigit := by
    intro digits hne hdigits
    obtain ⟨d, ds, rfl⟩ := List.exists_cons_of_ne_nil hne
    exact ⟨d, ds, rfl, hdigits d List.mem_cons_self⟩
  cases h with
  | null => exact ⟨'n', _, rfl, show isNameStart 'n' by decide⟩
  | true => exact ⟨'t', _, rfl, show isNameStart 't' by decide⟩
  | false => exact ⟨'f', _, rfl, show isNameStart 'f' by decide⟩
  | ident hstart => exact ⟨_, _, rfl, hstart⟩
  | whole hne hdigits => exact hdigit hne hdigits
  | fraction hne hdigits =>
    obtain ⟨d, ds, rfl, hd⟩ := hdigit hne hdigits
    exact ⟨d, _, rfl, hd⟩
  | str hquote => exact ⟨_, _, rfl, hquote⟩
  | @symbol s text htext =>
    obtain ⟨c, cs, rfl⟩ : ∃ c cs, text = c :: cs := by
      refine List.exists_cons_of_ne_nil ?_
      rintro rfl
      cases s <;> simp [Symbol.spellings] at htext
    exact ⟨c, cs, rfl, List.mem_filterMap.2 ⟨_, htext, rfl⟩⟩

theorem Shape.begins_symbol {s : Symbol} {c : Char} (h : (Shape.symbol s).Begins c) :
    isNameStart c = false ∧ isNameChar c = false ∧ c.isDigit = false ∧ isBlank c = false ∧
      ¬ (c = '"' ∨ c = '\'') ∧ (c = '=' → s = .assign ∨ s = .eq) ∧ (c = '.' → s = .dot) := by
  have hall : ∀ s : Symbol, ∀ c ∈ s.spellings.filterMap List.head?,
      isNameStart c = false ∧ isNameChar c = false ∧ c.isDigit = false ∧ isBlank c = false ∧
        ¬ (c = '"' ∨ c = '\'') ∧ (c = '=' → s = .assign ∨ s = .eq) ∧ (c = '.' → s = .dot) := by
    intro s c hc
    cases s <;> obtain rfl : c = _ := by simpa [Symbol.spellings] using hc
    all_goals decide
  exact hall s c h

/-- A blank ends every token, and begins none. -/
theorem isBlank_plain {c : Char} (h : isBlank c) :
    isNameStart c = false ∧ isNameChar c = false ∧ c.isDigit = false ∧ c ≠ '=' ∧ c ≠ '.' ∧
      ¬ (c = '"' ∨ c = '\'') := by
  have hcases : c = ' ' ∨ c = '\t' ∨ c = '\r' ∨ c = '\n' := by
    simpa [isBlank, or_assoc] using h
  rcases hcases with rfl | rfl | rfl | rfl <;> decide

theorem not_isDigit_of_isNameStart {c : Char} (h : isNameStart c) : c.isDigit = false := by
  rw [Bool.eq_false_iff]
  intro hdigit
  simp [isNameStart_of_isDigit hdigit] at h

namespace Shape

variable {shape : Shape} {c : Char}

theorem not_isBlank_of_begins (h : shape.Begins c) : isBlank c = false := by
  rw [Bool.eq_false_iff]
  intro hblank
  obtain ⟨hstart, -, hdigit, -, -, hquote⟩ := isBlank_plain hblank
  cases shape with
  | word => simp [Begins, hstart] at h
  | number => simp [Begins, hdigit] at h
  | string => exact hquote h
  | symbol s => simp [(begins_symbol h).2.2.2.1] at hblank

theorem not_isDigit_of_begins (h : shape.Begins c) (hshape : shape ≠ .number) :
    c.isDigit = false := by
  cases shape with
  | word => exact not_isDigit_of_isNameStart h
  | number => exact absurd rfl hshape
  | string => rcases h with rfl | rfl <;> decide
  | symbol s => exact (begins_symbol h).2.2.1

theorem not_isNameChar_of_begins (h : shape.Begins c) (hword : shape ≠ .word)
    (hnumber : shape ≠ .number) : isNameChar c = false := by
  cases shape with
  | word => exact absurd rfl hword
  | number => exact absurd rfl hnumber
  | string => rcases h with rfl | rfl <;> decide
  | symbol s => exact (begins_symbol h).2.1

theorem eq_of_begins_point (h : shape.Begins '.') : shape = .symbol .dot := by
  cases shape with
  | word => exact absurd h (show ¬ isNameStart '.' by decide)
  | number => exact absurd h (show ¬ Char.isDigit '.' by decide)
  | string => exact absurd h (show ¬ ('.' = '"' ∨ '.' = '\'') by decide)
  | symbol s => rw [(begins_symbol h).2.2.2.2.2.2 rfl]

theorem eq_of_begins_equals (h : shape.Begins '=') :
    shape = .symbol .assign ∨ shape = .symbol .eq := by
  cases shape with
  | word => exact absurd h (show ¬ isNameStart '=' by decide)
  | number => exact absurd h (show ¬ Char.isDigit '=' by decide)
  | string => exact absurd h (show ¬ ('=' = '"' ∨ '=' = '\'') by decide)
  | symbol s => exact (begins_symbol h).2.2.2.2.2.1 rfl |>.imp (congrArg _) (congrArg _)

end Shape

theorem next?_append {token : Token} {text rest : List Char} (h : Spelled token text)
    (hends : token.shape.EndsBefore rest) : next? (text ++ rest) = some (token, rest) := by
  cases h with
  | null => exact next?_word (by decide) (List.all_eq_true.1 (by decide)) hends
  | true => exact next?_word (by decide) (List.all_eq_true.1 (by decide)) hends
  | false => exact next?_word (by decide) (List.all_eq_true.1 (by decide)) hends
  | @ident c cs hstart hname hword =>
    rw [next?_word hstart hname hends]
    simp only [keywords, List.mem_cons, List.not_mem_nil, or_false, not_or] at hword
    obtain ⟨hnull, htrue, hfalse⟩ := hword
    rw [ofWord, if_neg hnull, if_neg htrue, if_neg hfalse]
  | whole hne hdigits => rw [next?_digits hne hdigits, scanNumber_whole hdigits hends]
  | @fraction digits fraction hne hdigits hfraction hmore =>
    rw [List.append_assoc, List.cons_append, next?_digits hne hdigits,
      scanNumber_fraction hdigits hfraction hmore hends]
  | @str quote content text hquote htext =>
    have hslash : quote ≠ '\\' := by rcases hquote with rfl | rfl <;> decide
    have hstring := scanString_append hslash htext rest
    have hstart : isNameStart quote = false ∧ quote.isDigit = false := by
      rcases hquote with rfl | rfl <;> decide
    simp [next?, hstart, hquote, hstring]
  | @symbol s text htext =>
    have hsymbol := scanSymbol?_append htext hends
    obtain ⟨c, cs, rfl, hbegins⟩ := (Spelled.symbol htext).begins
    obtain ⟨hstart, -, hdigit, -, hquote, -⟩ := Shape.begins_symbol hbegins
    rw [List.cons_append] at hsymbol ⊢
    simp [next?, hstart, hdigit, hquote, hsymbol]

/-! ## Tokens that do not run into each other -/

/-- A token of the second shape may stand right behind one of the first. -/
def Shape.joins : Shape → Shape → Bool
  | .word, .word | .word, .number | .number, .number | .symbol .dot, .number => false
  | .symbol s, .symbol .assign | .symbol s, .symbol .eq => !s.takesEquals
  | _, _ => true

def Joins (first second : Token) : Prop :=
  first.shape.joins second.shape

theorem Spells.head {tokens : List Token} {cs : List Char} (h : Spells tokens cs) {c : Char}
    (hc : c ∈ cs.head?) : isBlank c ∨ ∃ token ∈ tokens.head?, token.shape.Begins c := by
  cases h with
  | nil hblanks => exact .inl (hblanks c (List.mem_of_mem_head? hc))
  | @cons blanks text rest token tokens hblanks htoken hrest =>
    cases blanks with
    | nil =>
      obtain ⟨d, ds, rfl, hbegins⟩ := htoken.begins
      obtain rfl : d = c := by simpa using hc
      exact .inr ⟨token, rfl, hbegins⟩
    | cons d blanks =>
      obtain rfl : d = c := by simpa using hc
      exact .inl (hblanks d List.mem_cons_self)

/-- No digit comes next, unless a number does. -/
theorem Spells.not_isDigit {tokens : List Token} {cs : List Char} (h : Spells tokens cs)
    (hnumber : ∀ token ∈ tokens.head?, token.shape ≠ .number) :
    ∀ c ∈ cs.head?, c.isDigit = false := by
  intro c hc
  rcases h.head hc with hblank | ⟨token, htoken, hbegins⟩
  · exact (isBlank_plain hblank).2.2.1
  · exact Shape.not_isDigit_of_begins hbegins (hnumber token htoken)

/-- A point that comes next is a token of its own. -/
theorem Spells.point {tokens : List Token} {cs : List Char} (h : Spells tokens ('.' :: cs)) :
    ∃ token others, tokens = token :: others ∧ token.shape = .symbol .dot ∧ Spells others cs := by
  generalize htext : '.' :: cs = whole at h
  cases h with
  | nil hblanks =>
    have hblank := hblanks '.' (htext ▸ List.mem_cons_self)
    exact absurd hblank (by decide)
  | @cons blanks text rest token tokens hblanks htoken hrest =>
    rcases blanks with _ | ⟨blank, blanks⟩
    · obtain ⟨c, more, rfl, hbegins⟩ := htoken.begins
      obtain ⟨rfl, hcs⟩ : '.' = c ∧ cs = more ++ rest := by simpa using htext
      have hpoint := Shape.eq_of_begins_point hbegins
      cases token with
      | symbol s =>
        obtain rfl := Shape.symbol.inj hpoint
        cases htoken with
        | symbol hspelling =>
          obtain rfl : more = [] := by simpa [Symbol.spellings] using hspelling
          exact ⟨_, _, rfl, rfl, hcs ▸ hrest⟩
      | _ => simp [shape] at hpoint
    · obtain ⟨rfl, -⟩ : '.' = blank ∧ cs = blanks ++ text ++ rest := by simpa using htext
      exact absurd (hblanks '.' List.mem_cons_self) (by decide)

theorem Spells.endsBefore {token : Token} {tokens : List Token} {rest : List Char}
    (hrest : Spells tokens rest) (hchain : (token :: tokens).IsChain Joins) :
    token.shape.EndsBefore rest := by
  have hnext : ∀ next ∈ tokens.head?, token.shape.joins next.shape :=
    (List.isChain_cons.1 hchain).1
  generalize token.shape = shape at hnext
  cases shape with
  | word =>
    intro c hc
    rcases hrest.head hc with hblank | ⟨next, hmem, hbegins⟩
    · exact (isBlank_plain hblank).2.1
    · have hjoins := hnext next hmem
      refine Shape.not_isNameChar_of_begins hbegins ?_ ?_ <;> intro hshape <;>
        simp [hshape, Shape.joins] at hjoins
  | number =>
    refine ⟨hrest.not_isDigit ?_, ?_⟩
    · intro next hmem hshape
      have hjoins := hnext next hmem
      simp [hshape, Shape.joins] at hjoins
    · -- A point is no part of the number unless a digit follows, and only a number begins with one.
      rintro c more rfl
      obtain ⟨point, others, rfl, hpoint, hothers⟩ := hrest.point
      refine hothers.not_isDigit ?_ c rfl
      intro next hmem hshape
      have hjoins : point.shape.joins next.shape :=
        (List.isChain_cons.1 (List.isChain_cons.1 hchain).2).1 next hmem
      simp [hshape, hpoint, Shape.joins] at hjoins
  | string => trivial
  | symbol s =>
    rintro htakes c hc rfl
    rcases hrest.head hc with hblank | ⟨next, hmem, hbegins⟩
    · exact absurd hblank (by decide)
    · have hjoins := hnext next hmem
      rcases Shape.eq_of_begins_equals hbegins with hshape | hshape <;>
        simp [hshape, Shape.joins, htakes] at hjoins

theorem Spells.length_le {tokens : List Token} {cs : List Char} (h : Spells tokens cs) :
    tokens.length ≤ cs.length := by
  induction h with
  | nil hblanks => exact Nat.zero_le _
  | @cons blanks text rest token tokens hblanks htoken hrest ih =>
    obtain ⟨c, cs, rfl, -⟩ := htoken.begins
    simp only [List.length_cons, List.length_append]
    omega

theorem scanAtMost_of_spells {tokens : List Token} {cs : List Char} (h : Spells tokens cs)
    (hchain : tokens.IsChain Joins) {count : Nat} (hcount : tokens.length ≤ count) :
    scanAtMost count cs = some tokens := by
  induction h generalizing count with
  | @nil blanks hblanks =>
    have hdrop : blanks.dropWhile isBlank = [] := List.dropWhile_eq_nil_iff.2 hblanks
    cases count <;> simp [scanAtMost, hdrop]
  | @cons blanks text rest token tokens hblanks htoken hrest ih =>
    obtain ⟨count, rfl⟩ : ∃ k, count = k + 1 := ⟨count - 1, by simp at hcount; omega⟩
    have hnext := next?_append htoken (hrest.endsBefore hchain)
    have hothers := ih (List.isChain_cons.1 hchain).2 (by simpa using hcount)
    obtain ⟨c, cs, rfl, hbegins⟩ := htoken.begins
    have hdrop : (blanks ++ (c :: cs) ++ rest).dropWhile isBlank = c :: (cs ++ rest) := by
      rw [List.append_assoc, List.dropWhile_append_of_pos hblanks, List.cons_append,
        List.dropWhile_cons_of_neg (by simp [Shape.not_isBlank_of_begins hbegins])]
    rw [scanAtMost, hdrop]
    simp only [List.cons_append] at hnext
    simp only [hnext, hothers, Option.map_some]

theorem scan_of_spells {tokens : List Token} {cs : List Char} (h : Spells tokens cs)
    (hchain : tokens.IsChain Joins) : scan cs = some tokens :=
  scanAtMost_of_spells h hchain h.length_le

end Token
end TreeStream
