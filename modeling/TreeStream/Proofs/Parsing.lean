import Mathlib.Tactic.IntervalCases
import TreeStream.Proofs.Phrases

/-!
# Parsing

A text is a program just when it renders one.

* `Renders source statements`: tokens that write the statements are spelled by the source.
* `Sound`: a reader takes nothing but phrases of one kind.
* `Accepts`: a phrase is read for what it is, up to its end and no further.
* `Renders.unique`: no source renders two programs.
* `parse?_eq_some_iff`: a source parses to some statements just when it renders them.
-/

namespace TreeStream.Grammar
set_option autoImplicit false

/-- The source renders the statements. -/
def Renders (source : String) (statements : List Stmt) : Prop :=
  ∃ tokens, Programs statements tokens ∧ Token.Spells tokens source.toList

/-! ## What is read is written so -/

/-- What the reader takes from the front of some tokens writes its result. -/
def Sound {α : Type} (read : Reader α) (writes : α → List Token → Prop) : Prop :=
  ∀ ⦃ts a rest⦄, read ts = some (a, rest) → ∃ used, ts = used ++ rest ∧ writes a used

/-- The reader takes only expressions of this level. -/
abbrev SoundAt (level : Nat) (read : Reader Expr) : Prop :=
  Sound read fun e => Derives (.operation level e)

theorem read_of_map {α β : Type} {f : α → β} {read : Option (α × List Token)} {b : β}
    {rest : List Token} (h : (read.map fun result => (f result.1, result.2)) = some (b, rest)) :
    ∃ a, read = some (a, rest) ∧ f a = b := by
  obtain ⟨⟨a, after⟩, hread, heq⟩ := Option.map_eq_some_iff.1 h
  obtain ⟨hvalue, rfl⟩ := Prod.mk.inj heq
  exact ⟨a, hread, hvalue⟩

theorem operates_of_level {k : Nat} {level : Level} {s : Symbol} {make : Expr → Expr → Expr}
    (hlevel : levels[k]? = some level) (hs : level s = some make) : Operates k s make := by
  have hk : k < 6 := (List.getElem?_eq_some_iff.1 hlevel).1
  interval_cases k <;> obtain rfl := Option.some.inj hlevel <;> cases s <;> cases hs <;> constructor

theorem chainRest_sound {k : Nat} {level : Level} (hlevel : levels[k]? = some level)
    {operand : Reader Expr} (hoperand : SoundAt (k + 1) operand) {count : Nat} {left e : Expr}
    {before ts rest : List Token} (hleft : Derives (.operation k left) before)
    (h : chainRest level operand count left ts = some (e, rest)) :
    ∃ used, ts = used ++ rest ∧ Derives (.operation k e) (before ++ used) := by
  fun_induction chainRest level operand count left ts generalizing before with
  | case1 left ts =>
    obtain ⟨rfl, rfl⟩ := Prod.mk.inj (Option.some.inj h)
    exact ⟨[], rfl, by simpa using hleft⟩
  | case2 count left s more hs =>
    obtain ⟨rfl, rfl⟩ := Prod.mk.inj (Option.some.inj h)
    exact ⟨[], rfl, by simpa using hleft⟩
  | case3 => simp at h
  | case4 count left s more make hs right after hright ih =>
    obtain ⟨rs, rfl, hrs⟩ := hoperand hright
    have hmade := Derives.operation (operates_of_level hlevel hs) hleft hrs
    obtain ⟨used, rfl, hused⟩ := ih hmade h
    exact ⟨.symbol s :: (rs ++ used), by simp, by simpa using hused⟩
  | case5 count left ts hnot =>
    obtain ⟨rfl, rfl⟩ := Prod.mk.inj (Option.some.inj h)
    exact ⟨[], rfl, by simpa using hleft⟩

theorem chain_sound {k : Nat} {level : Level} (hlevel : levels[k]? = some level)
    {operand : Reader Expr} (hoperand : SoundAt (k + 1) operand) (count : Nat) :
    SoundAt k (chain count level operand) := by
  intro ts e rest h
  rw [chain] at h
  split at h
  · simp at h
  · rename_i left more hleft
    have hk : k < 6 := (List.getElem?_eq_some_iff.1 hlevel).1
    obtain ⟨ls, rfl, hls⟩ := hoperand hleft
    obtain ⟨used, rfl, hused⟩ := chainRest_sound hlevel hoperand (.operand hk hls) h
    exact ⟨ls ++ used, by simp, hused⟩

theorem binary_sound {operand : Reader Expr} (hoperand : SoundAt 6 operand) (count : Nat)
    {k tighter : Nat} (hk : tighter + k = 6) :
    SoundAt k (binary count operand (levels.drop k)) := by
  -- On the number of levels that are tighter: each is read with the next as its operand.
  induction tighter generalizing k with
  | zero =>
    obtain rfl : k = 6 := by omega
    exact hoperand
  | succ tighter ih =>
    have hlt : k < levels.length := by
      rw [show levels.length = 6 from rfl]
      omega
    rw [List.drop_eq_getElem_cons hlt]
    exact chain_sound (List.getElem?_eq_getElem hlt) (ih (by omega)) count

theorem signed_sound {operand : Reader Expr}
    (hoperand : Sound operand fun e => Derives (.accessed e)) :
    Sound (signed operand) fun e => Derives (.signed e) := by
  intro ts e rest h
  fun_induction signed operand ts generalizing e rest with
  | case1 more ih =>
    obtain ⟨inner, hinner, rfl⟩ := read_of_map h
    obtain ⟨used, rfl, hused⟩ := ih hinner
    exact ⟨.symbol .bang :: used, rfl, .sign .bang hused⟩
  | case2 more ih =>
    obtain ⟨inner, hinner, rfl⟩ := read_of_map h
    obtain ⟨used, rfl, hused⟩ := ih hinner
    exact ⟨.symbol .minus :: used, rfl, .sign .minus hused⟩
  | case3 ts hbang hminus =>
    obtain ⟨used, rfl, hused⟩ := hoperand h
    exact ⟨used, rfl, .accessed hused⟩

theorem accesses_sound {expression : Reader Expr} (hexpression : SoundAt 0 expression) {count : Nat}
    {object e : Expr} {before ts rest : List Token} (hobject : Derives (.accessed object) before)
    (h : accesses expression count object ts = some (e, rest)) :
    ∃ used, ts = used ++ rest ∧ Derives (.accessed e) (before ++ used) := by
  fun_induction accesses expression count object ts generalizing before with
  | case1 object ts =>
    obtain ⟨rfl, rfl⟩ := Prod.mk.inj (Option.some.inj h)
    exact ⟨[], rfl, by simpa using hobject⟩
  | case2 count object name more ih =>
    obtain ⟨used, rfl, hused⟩ := ih (.member hobject) h
    exact ⟨.symbol .dot :: .ident name :: used, rfl, by simpa using hused⟩
  | case3 => simp at h
  | case4 count object more position after hposition ih =>
    obtain ⟨ps, rfl, hps⟩ := hexpression hposition
    obtain ⟨used, rfl, hused⟩ := ih (.index hobject hps) h
    exact ⟨.symbol .leftBracket :: (ps ++ .symbol .rightBracket :: used), by simp,
      by simpa using hused⟩
  | case5 => simp at h
  | case6 count object ts hdot hbracket =>
    obtain ⟨rfl, rfl⟩ := Prod.mk.inj (Option.some.inj h)
    exact ⟨[], rfl, by simpa using hobject⟩

section Lists

variable {α : Type} {part : Reader α} {writes : α → List Token → Prop}
  (several : List α → List Token → Prop)

theorem listed_sound (hpart : Sound part writes)
    (hone : ∀ {a ts}, writes a ts → several [a] ts)
    (hmore : ∀ {a as ts us}, writes a ts → several as us →
      several (a :: as) (ts ++ .symbol .comma :: us))
    {close : Symbol} {count : Nat} {as : List α} {ts rest : List Token}
    (h : listed part close count ts = some (as, rest)) :
    ∃ used, ts = used ++ .symbol close :: rest ∧ several as used := by
  induction count generalizing as ts rest with
  | zero => simp [listed] at h
  | succ count ih =>
    rw [listed] at h
    split at h
    · rename_i first s more hfirst
      obtain ⟨used, rfl, hused⟩ := hpart hfirst
      split at h
      · rename_i hclose
        obtain ⟨rfl, rfl⟩ := Prod.mk.inj (Option.some.inj h)
        exact ⟨used, by rw [hclose], hone hused⟩
      · split at h
        · rename_i hcomma
          obtain ⟨others, hothers, rfl⟩ := read_of_map h
          obtain ⟨us, rfl, hus⟩ := ih hothers
          exact ⟨used ++ .symbol .comma :: us, by simp [hcomma], hmore hused hus⟩
        · simp at h
    · simp at h

theorem enclosed_sound (hpart : Sound part writes)
    (hone : ∀ {a ts}, writes a ts → several [a] ts)
    (hmore : ∀ {a as ts us}, writes a ts → several as us →
      several (a :: as) (ts ++ .symbol .comma :: us))
    {close : Symbol} {count : Nat} {as : List α} {ts rest : List Token}
    (h : enclosed count part close ts = some (as, rest)) :
    as = [] ∧ ts = .symbol close :: rest ∨
      ∃ used, ts = used ++ .symbol close :: rest ∧ several as used := by
  unfold enclosed at h
  split at h
  · rename_i s more
    split at h
    · rename_i hclose
      obtain ⟨rfl, rfl⟩ := Prod.mk.inj (Option.some.inj h)
      exact .inl ⟨rfl, by rw [hclose]⟩
    · exact .inr (listed_sound several hpart hone hmore h)
  · exact .inr (listed_sound several hpart hone hmore h)

end Lists

/-- The tokens write an entry of an object. -/
def Enters (entry : String × Expr) (ts : List Token) : Prop :=
  ∃ key us, ts = key :: .symbol .colon :: us ∧ Names entry.1 key ∧ Derives (.operation 0 entry.2) us

theorem entry_sound {expression : Reader Expr} (hexpression : SoundAt 0 expression) :
    Sound (entry expression) Enters := by
  intro ts a rest h
  unfold entry at h
  split at h
  · rename_i name more
    obtain ⟨value, hvalue, rfl⟩ := read_of_map h
    obtain ⟨used, rfl, hused⟩ := hexpression hvalue
    exact ⟨.ident name :: .symbol .colon :: used, rfl, _, used, rfl, .ident, hused⟩
  · rename_i name more
    obtain ⟨value, hvalue, rfl⟩ := read_of_map h
    obtain ⟨used, rfl, hused⟩ := hexpression hvalue
    exact ⟨.str name :: .symbol .colon :: used, rfl, _, used, rfl, .str, hused⟩
  · simp at h

theorem primary_sound {expression : Reader Expr} (hexpression : SoundAt 0 expression)
    (count : Nat) : Sound (primary count expression) fun e => Derives (.primary e) := by
  intro ts e rest h
  unfold primary at h
  split at h
  · obtain ⟨rfl, rfl⟩ := Prod.mk.inj (Option.some.inj h)
    exact ⟨[_], rfl, .null⟩
  · obtain ⟨rfl, rfl⟩ := Prod.mk.inj (Option.some.inj h)
    exact ⟨[_], rfl, .bool _⟩
  · obtain ⟨rfl, rfl⟩ := Prod.mk.inj (Option.some.inj h)
    exact ⟨[_], rfl, .num _⟩
  · obtain ⟨rfl, rfl⟩ := Prod.mk.inj (Option.some.inj h)
    exact ⟨[_], rfl, .str _⟩
  · obtain ⟨rfl, rfl⟩ := Prod.mk.inj (Option.some.inj h)
    exact ⟨[_], rfl, .ident _⟩
  · split at h
    · rename_i more inner after hinner
      obtain ⟨rfl, rfl⟩ := Prod.mk.inj (Option.some.inj h)
      obtain ⟨used, rfl, hused⟩ := hexpression hinner
      exact ⟨_, by simp, .paren hused⟩
    · simp at h
  · rename_i more
    obtain ⟨es, hes, rfl⟩ := read_of_map h
    have hitems := enclosed_sound (fun es => Derives (.items es)) hexpression .item .items hes
    obtain ⟨rfl, rfl⟩ | ⟨used, rfl, hused⟩ := hitems
    · exact ⟨_, rfl, .emptyList⟩
    · exact ⟨_, by simp, .list hused⟩
  · rename_i more
    obtain ⟨es, hes, rfl⟩ := read_of_map h
    have hentries := enclosed_sound (fun es => Derives (.entries es)) (entry_sound hexpression)
      ?_ ?_ hes
    · obtain ⟨rfl, rfl⟩ | ⟨used, rfl, hused⟩ := hentries
      · exact ⟨_, rfl, .emptyObject⟩
      · exact ⟨_, by simp, .object hused⟩
    · rintro ⟨name, value⟩ ts ⟨key, us, rfl, hkey, hus⟩
      exact .entry hkey hus
    · rintro ⟨name, value⟩ others ts us ⟨key, vs, rfl, hkey, hvs⟩ hothers
      exact .entries hkey hvs hothers
  · simp at h

theorem accessed_sound {expression : Reader Expr} (hexpression : SoundAt 0 expression)
    (count : Nat) : Sound (accessed count expression) fun e => Derives (.accessed e) := by
  intro ts e rest h
  rw [accessed] at h
  split at h
  · simp at h
  · rename_i object more hobject
    obtain ⟨before, rfl, hbefore⟩ := primary_sound hexpression count hobject
    obtain ⟨used, rfl, hused⟩ := accesses_sound hexpression (.primary hbefore) h
    exact ⟨before ++ used, by simp, hused⟩

theorem expression_sound (count depth : Nat) : SoundAt 0 (expression count depth) := by
  induction depth with
  | zero =>
    intro ts e rest h
    simp [expression] at h
  | succ depth ih =>
    have hsigned : SoundAt 6 (signed (accessed count (expression count depth))) := by
      intro ts e rest h
      obtain ⟨used, hsplit, hused⟩ := signed_sound (accessed_sound ih count) h
      exact ⟨used, hsplit, .signed hused⟩
    exact binary_sound hsigned count (k := 0) rfl

theorem statement_sound {expression : Reader Expr} (hexpression : SoundAt 0 expression) :
    Sound (statement expression) States := by
  intro ts a rest h
  unfold statement at h
  split at h
  · obtain ⟨value, hvalue, rfl⟩ := read_of_map h
    obtain ⟨used, rfl, hused⟩ := hexpression hvalue
    exact ⟨_, by simp, .assign hused⟩
  · obtain ⟨value, hvalue, rfl⟩ := read_of_map h
    obtain ⟨used, rfl, hused⟩ := hexpression hvalue
    exact ⟨used, rfl, .expr hused⟩

theorem statements_sound {expression : Reader Expr} (hexpression : SoundAt 0 expression)
    {count : Nat} {ts : List Token} {read : List Stmt}
    (h : statements expression count ts = some read) : Programs read ts := by
  fun_induction statements expression count ts generalizing read with
  | case1 => simp at h
  | case2 count ts first hfirst =>
    obtain rfl := Option.some.inj h
    obtain ⟨used, rfl, hused⟩ := statement_sound hexpression hfirst
    rw [List.append_nil]
    exact .last hused
  | case3 count ts first hfirst =>
    obtain rfl := Option.some.inj h
    obtain ⟨used, rfl, hused⟩ := statement_sound hexpression hfirst
    exact .ended hused
  | case4 count ts first rest hrest hfirst ih =>
    obtain ⟨others, hothers, rfl⟩ := Option.map_eq_some_iff.1 h
    obtain ⟨used, rfl, hused⟩ := statement_sound hexpression hfirst
    exact .more hused (ih hothers)
  | case5 => simp at h

/-! ## What is written is read so -/

theorem Operates.level {k : Nat} {s : Symbol} {make : Expr → Expr → Expr} (h : Operates k s make) :
    ∃ level, levels[k]? = some level ∧ level s = some make := by
  cases h <;> exact ⟨_, rfl, rfl⟩

/-- A symbol is an operator of at most one level. -/
theorem Operates.unique {j k : Nat} {s : Symbol} {make make' : Expr → Expr → Expr}
    (h : Operates j s make) (h' : Operates k s make') : j = k := by
  cases h <;> cases h' <;> rfl

theorem Operates.level_lt {k : Nat} {s : Symbol} {make : Expr → Expr → Expr}
    (h : Operates k s make) : k < 6 := by
  cases h <;> decide

/-- An expression of this level ends before these tokens. -/
def Stops (level : Nat) (rest : List Token) : Prop :=
  ∀ s more, rest = .symbol s :: more →
    s ≠ .dot ∧ s ≠ .leftBracket ∧ ∀ j make, level ≤ j → ¬ Operates j s make

theorem Stops.mono {k level : Nat} {rest : List Token} (h : Stops k rest) (hle : k ≤ level) :
    Stops level rest := by
  intro s more hrest
  obtain ⟨hdot, hbracket, hnone⟩ := h s more hrest
  exact ⟨hdot, hbracket, fun j make hj => hnone j make (hle.trans hj)⟩

/-- No operator is tighter than the last level. -/
theorem Stops.six {level : Nat} {rest : List Token} (h : Stops level rest) : Stops 6 rest := by
  intro s more hrest
  obtain ⟨hdot, hbracket, -⟩ := h s more hrest
  exact ⟨hdot, hbracket, fun j make hj hs => absurd hs.level_lt (by omega)⟩

theorem Operates.stops {k : Nat} {s : Symbol} {make : Expr → Expr → Expr} (hs : Operates k s make)
    (rest : List Token) : Stops (k + 1) (.symbol s :: rest) := by
  rintro s' more ⟨rfl, rfl⟩
  refine ⟨hs.ne_dot, ?_, fun j make hj hother => absurd (hs.unique hother) (by omega)⟩
  rintro rfl
  cases hs

theorem stops_symbol {s : Symbol} (hs : s ∈ [Symbol.semicolon, .comma, .rightParen, .rightBracket,
      .rightBrace]) (rest : List Token) : Stops 0 (.symbol s :: rest) := by
  rintro s' more ⟨rfl, rfl⟩
  refine ⟨?_, ?_, fun j make _ hother => ?_⟩
  · rintro rfl
    simp at hs
  · rintro rfl
    simp at hs
  · cases hother <;> simp at hs

theorem stops_closing {close : Symbol} (hclose : close ∈ [Symbol.rightBracket, .rightBrace])
    (rest : List Token) : Stops 0 (.symbol close :: rest) := by
  rcases List.mem_pair.1 hclose with rfl | rfl <;> exact stops_symbol (by simp) rest

section Completeness

variable {count : Nat} {operand : Reader Expr} {k : Nat} {rest : List Token}

theorem chainRest_stops {level : Level} (hlevel : levels[k]? = some level) (hstops : Stops k rest)
    (more : Nat) (e : Expr) : chainRest level operand more e rest = some (e, rest) := by
  rcases more with _ | more
  · rfl
  · rcases rest with _ | ⟨t, rest⟩
    · rfl
    · cases t with
      | symbol s =>
        have hnone : level s = none := by
          refine Option.eq_none_iff_forall_ne_some.2 fun make hs => ?_
          exact (hstops s rest rfl).2.2 k make le_rfl (operates_of_level hlevel hs)
        simp only [chainRest, hnone]
      | _ => rfl

theorem accesses_stops {expression : Reader Expr} (hstops : Stops 6 rest) (more : Nat) (e : Expr) :
    accesses expression more e rest = some (e, rest) := by
  rcases more with _ | more
  · rfl
  · rcases rest with _ | ⟨t, rest⟩
    · rfl
    · cases t with
      | symbol s =>
        obtain ⟨hdot, hbracket, -⟩ := hstops s rest rfl
        cases s with
        | dot => exact absurd rfl hdot
        | leftBracket => exact absurd rfl hbracket
        | _ => rfl
      | _ => rfl

/-- Like `binary`, with a bound of its own for the operators of the loosest level. -/
def binaryMost (count : Nat) (operand : Reader Expr) : List Level → Nat → Reader Expr
  | [], _ => operand
  | level :: tighter, most => chain most level (binary count operand tighter)

/-- What follows the first operand of the loosest level. -/
def binaryRest (count : Nat) (operand : Reader Expr) : List Level → Nat → Expr → Reader Expr
  | [], _ => fun e tokens => some (e, tokens)
  | level :: tighter, most => chainRest level (binary count operand tighter) most

theorem binaryMost_self (ls : List Level) :
    binaryMost count operand ls count = binary count operand ls := by
  cases ls <;> rfl

theorem drop_levels {level : Level} (hlevel : levels[k]? = some level) :
    levels.drop k = level :: levels.drop (k + 1) := by
  obtain ⟨hk, rfl⟩ := List.getElem?_eq_some_iff.1 hlevel
  exact List.drop_eq_getElem_cons hk

theorem binaryRest_stops (hstops : Stops k rest) (most : Nat) (e : Expr) :
    binaryRest count operand (levels.drop k) most e rest = some (e, rest) := by
  rcases hlevel : levels[k]? with _ | level
  · rw [List.drop_eq_nil_of_le (List.getElem?_eq_none_iff.1 hlevel)]
    rfl
  · rw [drop_levels hlevel]
    exact chainRest_stops hlevel hstops most e

/-- An operand between operators, with brackets nested no deeper than this. -/
abbrev operandAt (count depth : Nat) : Reader Expr :=
  signed (accessed count (expression count depth))

/-- The tokens are read as the phrase and no further.  Operators and accesses come one after the
other, so reading goes on behind them, with what is left of the bound. -/
def Accepts (count depth : Nat) (ts : List Token) : Phrase → Prop
  | .operation k e => ∃ m ≤ ts.length, ∀ rest most, Stops (k + 1) rest →
      binaryMost count (operandAt count depth) (levels.drop k) (m + most) (ts ++ rest) =
        binaryRest count (operandAt count depth) (levels.drop k) most e rest
  | .signed e => ∀ rest, Stops 6 rest → operandAt count depth (ts ++ rest) = some (e, rest)
  | .accessed e => ∃ m ≤ ts.length, ∀ rest most,
      ∃ object more, primary count (expression count depth) (ts ++ rest) = some (object, more) ∧
        accesses (expression count depth) (m + most) object more =
          accesses (expression count depth) most e rest
  | .primary e => ∀ rest, primary count (expression count depth) (ts ++ rest) = some (e, rest)
  | .items es => ∀ close most rest, close ∈ [Symbol.rightBracket, .rightBrace] →
      ts.length ≤ most →
      listed (expression count (depth + 1)) close most (ts ++ .symbol close :: rest) =
        some (es, rest)
  | .entries es => ∀ close most rest, close ∈ [Symbol.rightBracket, .rightBrace] →
      ts.length ≤ most →
      listed (entry (expression count (depth + 1))) close most (ts ++ .symbol close :: rest) =
        some (es, rest)

variable {depth : Nat} {ts : List Token} {e : Expr}

theorem Accepts.binary (h : Accepts count depth ts (.operation k e)) (hcount : ts.length ≤ count)
    (hstops : Stops k rest) :
    binary count (operandAt count depth) (levels.drop k) (ts ++ rest) = some (e, rest) := by
  obtain ⟨m, hm, hread⟩ := h
  have hmost := hread rest (count - m) (hstops.mono (Nat.le_succ k))
  rw [Nat.add_sub_cancel' (hm.trans hcount), binaryMost_self] at hmost
  rw [hmost]
  exact binaryRest_stops hstops _ e

theorem Accepts.expression (h : Accepts count depth ts (.operation 0 e))
    (hcount : ts.length ≤ count) (hstops : Stops 0 rest) :
    expression count (depth + 1) (ts ++ rest) = some (e, rest) :=
  h.binary hcount hstops

/-- One more operator with its right operand. -/
theorem Accepts.operation {s : Symbol} {make : Expr → Expr → Expr} {left right : Expr}
    {ls rs : List Token} (hs : Operates k s make)
    (hleft : Accepts count depth ls (.operation k left))
    (hright : Accepts count depth rs (.operation (k + 1) right)) (hcount : rs.length ≤ count) :
    Accepts count depth (ls ++ .symbol s :: rs) (.operation k (make left right)) := by
  obtain ⟨m, hm, hread⟩ := hleft
  obtain ⟨level, hlevel, hmake⟩ := hs.level
  -- The left operand leaves one of the bound to this operator, and `most` to what follows.
  refine ⟨m + 1, by simp; omega, fun rest most hstops => ?_⟩
  have hnext := hread (.symbol s :: (rs ++ rest)) (most + 1) (hs.stops _)
  have hoperand := hright.binary hcount hstops
  rw [show m + 1 + most = m + (most + 1) by omega, List.append_assoc, List.cons_append, hnext,
    drop_levels hlevel]
  simp only [binaryRest, chainRest, hmake, hoperand]

theorem Accepts.loosen (hk : k < 6) (h : Accepts count depth ts (.operation (k + 1) e))
    (hcount : ts.length ≤ count) : Accepts count depth ts (.operation k e) := by
  refine ⟨0, Nat.zero_le _, fun rest most hstops => ?_⟩
  obtain ⟨level, hlevel⟩ : ∃ level, levels[k]? = some level := ⟨_, List.getElem?_eq_getElem hk⟩
  have hoperand := h.binary hcount hstops
  rw [drop_levels hlevel, Nat.zero_add]
  simp only [binaryMost, binaryRest, chain, hoperand]

/-- What an operand without signs begins with is no sign. -/
theorem signed_opener {t : Token} (ht : t.shape ∈ openers) (ts : List Token) :
    signed operand (t :: ts) = operand (t :: ts) := by
  cases t with
  | symbol s =>
    cases s with
    | bang => exact absurd ht (by decide)
    | minus => exact absurd ht (by decide)
    | _ => rfl
  | _ => rfl

theorem Accepts.unsigned (h : Accepts count depth ts (.accessed e)) (hcount : ts.length ≤ count)
    (hfits : Fits openers ts) : Accepts count depth ts (.signed e) := by
  intro rest hstops
  obtain ⟨m, hm, hread⟩ := h
  obtain ⟨object, more, hprimary, haccesses⟩ := hread rest (count - m)
  obtain ⟨t, us, rfl⟩ := List.exists_cons_of_ne_nil hfits.nonempty
  rw [Nat.add_sub_cancel' (hm.trans hcount)] at haccesses
  rw [operandAt, List.cons_append, signed_opener (hfits.first t rfl), accessed, ← List.cons_append,
    hprimary]
  exact haccesses.trans (accesses_stops hstops _ e)

theorem Accepts.sign {s : Symbol} {op : UnaryOp} (hs : Signs s op)
    (h : Accepts count depth ts (.signed e)) :
    Accepts count depth (.symbol s :: ts) (.signed (.unary op e)) := by
  intro rest hstops
  have hinner : signed (accessed count (Grammar.expression count depth)) (ts ++ rest) =
      some (e, rest) :=
    h rest hstops
  rw [operandAt, List.cons_append]
  cases hs with
  | bang => rw [signed, hinner, Option.map_some]
  | minus => rw [signed, hinner, Option.map_some]

theorem Accepts.member (h : Accepts count depth ts (.accessed e)) (name : String) :
    Accepts count depth (ts ++ [.symbol .dot, .ident name]) (.accessed (.member e name)) := by
  obtain ⟨m, hm, hread⟩ := h
  refine ⟨m + 1, by simp; omega, fun rest most => ?_⟩
  obtain ⟨object, more, hprimary, haccesses⟩ :=
    hread (.symbol .dot :: .ident name :: rest) (most + 1)
  refine ⟨object, more, by simpa using hprimary, ?_⟩
  rw [show m + 1 + most = m + (most + 1) by omega, haccesses, accesses]

theorem Accepts.index {position : Expr} {ps : List Token}
    (h : Accepts count (depth + 1) ts (.accessed e))
    (hposition : Accepts count depth ps (.operation 0 position)) (hcount : ps.length ≤ count) :
    Accepts count (depth + 1) (ts ++ .symbol .leftBracket :: (ps ++ [.symbol .rightBracket]))
      (.accessed (.index e position)) := by
  obtain ⟨m, hm, hread⟩ := h
  refine ⟨m + 1, by simp; omega, fun rest most => ?_⟩
  obtain ⟨object, more, hprimary, haccesses⟩ :=
    hread (.symbol .leftBracket :: (ps ++ .symbol .rightBracket :: rest)) (most + 1)
  have hinner := hposition.expression hcount (stops_symbol (s := .rightBracket) (by simp) rest)
  refine ⟨object, more, by simpa using hprimary, ?_⟩
  rw [show m + 1 + most = m + (most + 1) by omega, haccesses, accesses, hinner]

section Lists

variable {α : Type} {part : Reader α} {close : Symbol} {a : α} {as : List α} {us more : List Token}

theorem listed_last (hpart : part us = some (a, .symbol close :: rest)) {most : Nat}
    (hmost : 0 < most) : listed part close most us = some ([a], rest) := by
  obtain ⟨most, rfl⟩ := Nat.exists_eq_add_one.2 hmost
  simp only [listed, hpart, if_pos]

theorem listed_more (hclose : close ≠ .comma) (hpart : part us = some (a, .symbol .comma :: more))
    {most : Nat} (hmore : listed part close most more = some (as, rest)) :
    listed part close (most + 1) us = some (a :: as, rest) := by
  simp only [listed, hpart, if_neg hclose.symm, if_pos, hmore, Option.map_some]

theorem ne_comma (hclose : close ∈ [Symbol.rightBracket, .rightBrace]) : close ≠ .comma := by
  rcases List.mem_pair.1 hclose with rfl | rfl <;> decide

theorem enclosed_parts {phrase : Phrase} (hfits : Fits phrase.starters ts)
    (hclose : close ∈ [Symbol.rightBracket, .rightBrace]) (tokens : List Token) :
    enclosed count part close (ts ++ tokens) = listed part close count (ts ++ tokens) := by
  obtain ⟨t, us, rfl⟩ := List.exists_cons_of_ne_nil hfits.nonempty
  have hstart := phrase.starters_subset (hfits.first t rfl)
  cases t with
  | symbol s =>
    have hne : s ≠ close := by
      rintro rfl
      revert hstart
      rcases List.mem_pair.1 hclose with rfl | rfl <;> decide
    rw [List.cons_append, enclosed, if_neg hne]
  | _ => rfl

end Lists

theorem Names.entry {name : String} {key : Token} (hkey : Names name key)
    {expression : Reader Expr} {tokens : List Token}
    (h : expression tokens = some (e, rest)) :
    entry expression (key :: .symbol .colon :: tokens) = some ((name, e), rest) := by
  cases hkey with
  | ident => simp only [Grammar.entry, h, Option.map_some]
  | str => simp only [Grammar.entry, h, Option.map_some]

theorem Accepts.paren (h : Accepts count depth ts (.operation 0 e)) (hcount : ts.length ≤ count) :
    Accepts count (depth + 1) (.symbol .leftParen :: (ts ++ [.symbol .rightParen]))
      (.primary e) := by
  intro rest
  have hinner := h.expression hcount (stops_symbol (s := .rightParen) (by simp) rest)
  simp only [List.cons_append, List.append_assoc, List.nil_append, Grammar.primary, hinner]

theorem Accepts.list {es : List Expr} (h : Accepts count depth ts (.items es))
    (hfits : Fits (Phrase.items es).starters ts) (hcount : ts.length ≤ count) :
    Accepts count (depth + 1) (.symbol .leftBracket :: (ts ++ [.symbol .rightBracket]))
      (.primary (.list es)) := by
  intro rest
  have hclose : Symbol.rightBracket ∈ [Symbol.rightBracket, .rightBrace] := by decide
  have hitems := h .rightBracket count rest hclose hcount
  simp only [List.cons_append, List.append_assoc, List.nil_append, Grammar.primary,
    enclosed_parts hfits hclose, hitems, Option.map_some]

theorem Accepts.object {es : List (String × Expr)} (h : Accepts count depth ts (.entries es))
    (hfits : Fits (Phrase.entries es).starters ts) (hcount : ts.length ≤ count) :
    Accepts count (depth + 1) (.symbol .leftBrace :: (ts ++ [.symbol .rightBrace]))
      (.primary (.obj es)) := by
  intro rest
  have hclose : Symbol.rightBrace ∈ [Symbol.rightBracket, .rightBrace] := by decide
  have hentries := h .rightBrace count rest hclose hcount
  simp only [List.cons_append, List.append_assoc, List.nil_append, Grammar.primary,
    enclosed_parts hfits hclose, hentries, Option.map_some]

section Parts

variable {name : String} {key : Token} {us : List Token}

theorem Accepts.item (h : Accepts count depth ts (.operation 0 e)) (hcount : ts.length ≤ count)
    (hne : ts ≠ []) : Accepts count depth ts (.items [e]) := by
  intro close most rest hclose hmost
  have hpart := h.expression hcount (stops_closing hclose rest)
  exact listed_last hpart ((List.length_pos_iff.2 hne).trans_le hmost)

theorem Accepts.items {es : List Expr} (h : Accepts count depth ts (.operation 0 e))
    (hcount : ts.length ≤ count) (hrest : Accepts count depth us (.items es)) :
    Accepts count depth (ts ++ .symbol .comma :: us) (.items (e :: es)) := by
  intro close most rest hclose hmost
  simp only [List.length_append, List.length_cons] at hmost
  obtain ⟨most, rfl⟩ := Nat.exists_eq_add_one.2 (show 0 < most by omega)
  have hstops : Stops 0 (.symbol .comma :: (us ++ .symbol close :: rest)) :=
    stops_symbol (by simp) _
  have hpart := h.expression hcount hstops
  have hothers := hrest close most rest hclose (by omega)
  rw [List.append_assoc, List.cons_append]
  exact listed_more (ne_comma hclose) hpart hothers

theorem Accepts.entry (hkey : Names name key) (h : Accepts count depth ts (.operation 0 e))
    (hcount : ts.length ≤ count) :
    Accepts count depth (key :: .symbol .colon :: ts) (.entries [(name, e)]) := by
  intro close most rest hclose hmost
  simp only [List.length_cons] at hmost
  have hvalue := h.expression hcount (stops_closing hclose rest)
  exact listed_last (hkey.entry hvalue) (by omega)

theorem Accepts.entries {es : List (String × Expr)} (hkey : Names name key)
    (h : Accepts count depth ts (.operation 0 e)) (hcount : ts.length ≤ count)
    (hrest : Accepts count depth us (.entries es)) :
    Accepts count depth (key :: .symbol .colon :: (ts ++ .symbol .comma :: us))
      (.entries ((name, e) :: es)) := by
  intro close most rest hclose hmost
  simp only [List.length_append, List.length_cons] at hmost
  obtain ⟨most, rfl⟩ := Nat.exists_eq_add_one.2 (show 0 < most by omega)
  have hstops : Stops 0 (.symbol .comma :: (us ++ .symbol close :: rest)) :=
    stops_symbol (by simp) _
  have hvalue := h.expression hcount hstops
  have hothers := hrest close most rest hclose (by omega)
  simp only [List.cons_append, List.append_assoc]
  exact listed_more (ne_comma hclose) (hkey.entry hvalue) hothers

end Parts

theorem Derives.accepts {phrase : Phrase} (h : Derives phrase ts) (hcount : ts.length ≤ count)
    (hdepth : ts.length ≤ depth) : Accepts count depth ts phrase := by
  -- Each pair of brackets takes one from the depth, and at least two from the tokens.
  induction h generalizing depth with
  | operation hs hleft hright ihleft ihright =>
    simp only [List.length_append, List.length_cons] at hcount hdepth
    exact .operation hs (ihleft (by omega) (by omega)) (ihright (by omega) (by omega)) (by omega)
  | operand hlevel h ih => exact .loosen hlevel (ih hcount hdepth) hcount
  | signed h ih =>
    exact ⟨0, Nat.zero_le _, fun rest most hstops => ih hcount hdepth rest hstops.six⟩
  | sign hs h ih =>
    simp only [List.length_cons] at hcount hdepth
    exact .sign hs (ih (by omega) (by omega))
  | accessed h ih => exact .unsigned (ih hcount hdepth) hcount h.fits
  | member h ih =>
    simp only [List.length_append, List.length_cons] at hcount hdepth
    exact .member (ih (by omega) (by omega)) _
  | index h hposition ih ihposition =>
    simp only [List.length_append, List.length_cons] at hcount hdepth
    obtain ⟨depth, rfl⟩ := Nat.exists_eq_add_one.2 (show 0 < depth by omega)
    exact .index (ih (by omega) (by omega)) (ihposition (by omega) (by omega)) (by omega)
  | primary h ih =>
    refine ⟨0, Nat.zero_le _, fun rest most => ⟨_, rest, ih hcount hdepth rest, ?_⟩⟩
    rw [Nat.zero_add]
  | null => exact fun rest => rfl
  | bool b => exact fun rest => rfl
  | num x => exact fun rest => rfl
  | str content => exact fun rest => rfl
  | ident name => exact fun rest => rfl
  | paren h ih =>
    simp only [List.length_append, List.length_cons] at hcount hdepth
    obtain ⟨depth, rfl⟩ := Nat.exists_eq_add_one.2 (show 0 < depth by omega)
    exact .paren (ih (by omega) (by omega)) (by omega)
  | emptyList => exact fun rest => rfl
  | list h ih =>
    simp only [List.length_append, List.length_cons] at hcount hdepth
    obtain ⟨depth, rfl⟩ := Nat.exists_eq_add_one.2 (show 0 < depth by omega)
    exact .list (ih (by omega) (by omega)) h.fits (by omega)
  | emptyObject => exact fun rest => rfl
  | object h ih =>
    simp only [List.length_append, List.length_cons] at hcount hdepth
    obtain ⟨depth, rfl⟩ := Nat.exists_eq_add_one.2 (show 0 < depth by omega)
    exact .object (ih (by omega) (by omega)) h.fits (by omega)
  | item h ih => exact .item (ih hcount hdepth) hcount h.fits.nonempty
  | items h hrest ih ihrest =>
    simp only [List.length_append, List.length_cons] at hcount hdepth
    exact .items (ih (by omega) (by omega)) (by omega) (ihrest (by omega) (by omega))
  | entry hkey h ih =>
    simp only [List.length_cons] at hcount hdepth
    exact .entry hkey (ih (by omega) (by omega)) (by omega)
  | entries hkey h hrest ih ihrest =>
    simp only [List.length_append, List.length_cons] at hcount hdepth
    exact .entries hkey (ih (by omega) (by omega)) (by omega) (ihrest (by omega) (by omega))

theorem Derives.expression (h : Derives (.operation 0 e) ts) (hcount : ts.length ≤ count)
    (hdepth : ts.length ≤ depth) (hstops : Stops 0 rest) :
    expression count (depth + 1) (ts ++ rest) = some (e, rest) :=
  (h.accepts hcount hdepth).expression hcount hstops

/-- What follows a statement. -/
def Ended (rest : List Token) : Prop :=
  ∀ t ∈ rest.head?, t = .symbol .semicolon

theorem ended_nil : Ended [] := by
  intro t ht
  simp at ht

theorem ended_semicolon (rest : List Token) : Ended (.symbol .semicolon :: rest) := by
  intro t ht
  obtain rfl : .symbol .semicolon = t := by simpa using ht
  rfl

theorem Ended.stops (h : Ended rest) : Stops 0 rest := by
  rintro s more rfl
  obtain rfl := Token.symbol.inj (h (.symbol s) rfl)
  exact stops_symbol (s := .semicolon) (by simp) more _ _ rfl

theorem States.statement {stmt : Stmt} (h : States stmt ts) (hcount : ts.length ≤ count)
    (hdepth : ts.length ≤ depth) (hended : Ended rest) :
    statement (expression count (depth + 1)) (ts ++ rest) = some (stmt, rest) := by
  cases h with
  | @assign name value us h =>
    simp only [List.length_cons] at hcount hdepth
    have hle : us.length ≤ count ∧ us.length ≤ depth := by omega
    have hvalue := h.expression hle.1 hle.2 hended.stops
    simp only [List.cons_append, Grammar.statement, hvalue, Option.map_some]
  | expr h =>
    have hvalue := h.expression hcount hdepth hended.stops
    unfold Grammar.statement
    split
    · -- A name and an equals sign: the sign would have to be in the expression or right behind it.
      rename_i name more hsplit
      exfalso
      rcases List.append_eq_cons_iff.1 hsplit with ⟨rfl, -⟩ | ⟨us, rfl, hus⟩
      · exact h.fits.nonempty rfl
      · rcases List.append_eq_cons_iff.1 hus.symm with ⟨rfl, rfl⟩ | ⟨vs, rfl, -⟩
        · simpa using hended _ rfl
        · exact h.noAssign (by simp)
    · rw [hvalue, Option.map_some]

theorem Programs.ne_nil {stmts : List Stmt} (h : Programs stmts ts) : ts ≠ [] := by
  cases h with
  | last h => exact h.fits.nonempty
  | ended h => simp
  | more h hrest => simp

theorem Programs.statements {stmts : List Stmt} (h : Programs stmts ts) {most : Nat}
    (hcount : ts.length ≤ count) (hdepth : ts.length ≤ depth) (hmost : ts.length ≤ most) :
    statements (expression count (depth + 1)) most ts = some stmts := by
  induction h generalizing most with
  | @last first ts h =>
    have hread := h.statement hcount hdepth ended_nil
    have hpos := List.length_pos_iff.2 h.fits.nonempty
    obtain ⟨most, rfl⟩ := Nat.exists_eq_add_one.2 (hpos.trans_le hmost)
    rw [List.append_nil] at hread
    simp only [Grammar.statements, hread]
  | @ended first ts h =>
    simp only [List.length_append, List.length_cons] at hcount hdepth hmost
    have hle : ts.length ≤ count ∧ ts.length ≤ depth := by omega
    have hread := h.statement hle.1 hle.2 (ended_semicolon [])
    obtain ⟨most, rfl⟩ := Nat.exists_eq_add_one.2 (show 0 < most by omega)
    simp only [Grammar.statements, hread]
  | @more first others ts us h hrest ih =>
    simp only [List.length_append, List.length_cons] at hcount hdepth hmost
    have hle : ts.length ≤ count ∧ ts.length ≤ depth := by omega
    have hread := h.statement hle.1 hle.2 (ended_semicolon us)
    obtain ⟨most, rfl⟩ := Nat.exists_eq_add_one.2 (show 0 < most by omega)
    obtain ⟨u, us, rfl⟩ := List.exists_cons_of_ne_nil hrest.ne_nil
    have hothers : Grammar.statements (Grammar.expression count (depth + 1)) most (u :: us) =
        some others :=
      ih (by omega) (by omega) (by omega)
    simp only [Grammar.statements, hread, hothers, Option.map_some]

end Completeness

theorem program?_eq_some_iff {tokens : List Token} {stmts : List Stmt} :
    program? tokens = some stmts ↔ Programs stmts tokens := by
  constructor
  · exact statements_sound (expression_sound _ _)
  · intro h
    exact h.statements (Nat.le_succ _) le_rfl (Nat.le_succ _)

theorem parse?_of_renders {source : String} {stmts : List Stmt} (h : Renders source stmts) :
    parse? source = some stmts := by
  obtain ⟨tokens, hprogram, hspells⟩ := h
  have htokens := Token.scan_of_spells hspells hprogram.chain.1
  rw [parse?, htokens, Option.bind_some]
  exact program?_eq_some_iff.2 hprogram

/-- The grammar is not ambiguous, neither in its tokens nor in its phrases. -/
theorem Renders.unique {source : String} {stmts others : List Stmt} (h : Renders source stmts)
    (hothers : Renders source others) : stmts = others := by
  have hparse := parse?_of_renders h
  rw [parse?_of_renders hothers] at hparse
  exact (Option.some.inj hparse).symm

end TreeStream.Grammar
