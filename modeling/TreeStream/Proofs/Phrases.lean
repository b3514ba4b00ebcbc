import TreeStream.Expr.Grammar
import TreeStream.Proofs.Lexing

/-!
# Phrases

Which tokens a program is written with.

* `Operates` lists the operators between two operands, with their levels from the loosest to the
  tightest.
* `Derives phrase tokens`: the tokens write the phrase, which is an expression of some level or a
  part of one.
* `Programs statements tokens`: the tokens write the statements.
* `Programs.chain`: none of these tokens runs into the next one.
-/

namespace TreeStream.Grammar
set_option autoImplicit false

/-- The operators between two operands, each with its level and the expression that it makes. -/
inductive Operates : Nat → Symbol → (Expr → Expr → Expr) → Prop
  | or : Operates 0 .or .or
  | and : Operates 1 .and .and
  | eq : Operates 2 .eq (.binary .eq)
  | ne : Operates 2 .ne (.binary .ne)
  | le : Operates 3 .le (.binary .le)
  | ge : Operates 3 .ge (.binary .ge)
  | lt : Operates 3 .lt (.binary .lt)
  | gt : Operates 3 .gt (.binary .gt)
  | plus : Operates 4 .plus (.binary .add)
  | minus : Operates 4 .minus (.binary .sub)
  | star : Operates 5 .star (.binary .mul)
  | slash : Operates 5 .slash (.binary .div)
  | percent : Operates 5 .percent (.binary .mod)

/-- The signs in front of an operand. -/
inductive Signs : Symbol → UnaryOp → Prop
  | bang : Signs .bang .not
  | minus : Signs .minus .neg

/-- The tokens that name an entry of an object. -/
inductive Names (name : String) : Token → Prop
  | ident : Names name (.ident name)
  | str : Names name (.str name)

/-- A part of a program. -/
inductive Phrase where
  /-- An expression in which, outside of brackets, all operators between operands are of this level
  or a tighter one; there are six levels. -/
  | operation (level : Nat) (e : Expr)
  /-- An operand with signs in front of it. -/
  | signed (e : Expr)
  /-- A primary expression with accesses behind it. -/
  | accessed (e : Expr)
  | primary (e : Expr)
  /-- The items of a list. -/
  | items (es : List Expr)
  /-- The entries of an object. -/
  | entries (es : List (String × Expr))

/-- The tokens write the phrase. -/
inductive Derives : Phrase → List Token → Prop
  | operation {level : Nat} {s : Symbol} {make : Expr → Expr → Expr} {left right : Expr}
      {ls rs : List Token} (hs : Operates level s make) (hleft : Derives (.operation level left) ls)
      (hright : Derives (.operation (level + 1) right) rs) :
      Derives (.operation level (make left right)) (ls ++ .symbol s :: rs)
  | operand {level : Nat} {e : Expr} {ts : List Token} (hlevel : level < 6)
      (h : Derives (.operation (level + 1) e) ts) : Derives (.operation level e) ts
  | signed {e : Expr} {ts : List Token} (h : Derives (.signed e) ts) : Derives (.operation 6 e) ts
  | sign {s : Symbol} {op : UnaryOp} {e : Expr} {ts : List Token} (hs : Signs s op)
      (h : Derives (.signed e) ts) : Derives (.signed (.unary op e)) (.symbol s :: ts)
  | accessed {e : Expr} {ts : List Token} (h : Derives (.accessed e) ts) : Derives (.signed e) ts
  | member {object : Expr} {name : String} {ts : List Token} (h : Derives (.accessed object) ts) :
      Derives (.accessed (.member object name)) (ts ++ [.symbol .dot, .ident name])
  | index {object position : Expr} {ts ps : List Token} (h : Derives (.accessed object) ts)
      (hposition : Derives (.operation 0 position) ps) :
      Derives (.accessed (.index object position))
        (ts ++ .symbol .leftBracket :: (ps ++ [.symbol .rightBracket]))
  | primary {e : Expr} {ts : List Token} (h : Derives (.primary e) ts) : Derives (.accessed e) ts
  | null : Derives (.primary .null) [.null]
  | bool (b : Bool) : Derives (.primary (.bool b)) [.bool b]
  | num (x : Float) : Derives (.primary (.num x)) [.num x]
  | str (content : String) : Derives (.primary (.str content)) [.str content]
  | ident (name : String) : Derives (.primary (.ident name)) [.ident name]
  | paren {e : Expr} {ts : List Token} (h : Derives (.operation 0 e) ts) :
      Derives (.primary e) (.symbol .leftParen :: (ts ++ [.symbol .rightParen]))
  | emptyList : Derives (.primary (.list [])) [.symbol .leftBracket, .symbol .rightBracket]
  | list {es : List Expr} {ts : List Token} (h : Derives (.items es) ts) :
      Derives (.primary (.list es)) (.symbol .leftBracket :: (ts ++ [.symbol .rightBracket]))
  | emptyObject : Derives (.primary (.obj [])) [.symbol .leftBrace, .symbol .rightBrace]
  | object {es : List (String × Expr)} {ts : List Token} (h : Derives (.entries es) ts) :
      Derives (.primary (.obj es)) (.symbol .leftBrace :: (ts ++ [.symbol .rightBrace]))
  | item {e : Expr} {ts : List Token} (h : Derives (.operation 0 e) ts) : Derives (.items [e]) ts
  | items {e : Expr} {es : List Expr} {ts us : List Token} (h : Derives (.operation 0 e) ts)
      (hrest : Derives (.items es) us) : Derives (.items (e :: es)) (ts ++ .symbol .comma :: us)
  | entry {name : String} {key : Token} {e : Expr} {ts : List Token} (hkey : Names name key)
      (h : Derives (.operation 0 e) ts) :
      Derives (.entries [(name, e)]) (key :: .symbol .colon :: ts)
  | entries {name : String} {key : Token} {e : Expr} {es : List (String × Expr)}
      {ts us : List Token} (hkey : Names name key) (h : Derives (.operation 0 e) ts)
      (hrest : Derives (.entries es) us) :
      Derives (.entries ((name, e) :: es)) (key :: .symbol .colon :: (ts ++ .symbol .comma :: us))

/-- The tokens write the statement. -/
inductive States : Stmt → List Token → Prop
  | assign {name : String} {value : Expr} {ts : List Token} (h : Derives (.operation 0 value) ts) :
      States (.assign name value) (.ident name :: .symbol .assign :: ts)
  | expr {value : Expr} {ts : List Token} (h : Derives (.operation 0 value) ts) :
      States (.expr value) ts

/-- The tokens write the statements: at least one, with semicolons between them and at most one
after the last. -/
inductive Programs : List Stmt → List Token → Prop
  | last {statement : Stmt} {ts : List Token} (h : States statement ts) : Programs [statement] ts
  | ended {statement : Stmt} {ts : List Token} (h : States statement ts) :
      Programs [statement] (ts ++ [.symbol .semicolon])
  | more {statement : Stmt} {statements : List Stmt} {ts us : List Token} (h : States statement ts)
      (hrest : Programs statements us) :
      Programs (statement :: statements) (ts ++ .symbol .semicolon :: us)

/-! ## First and last tokens -/

open Token (Shape)

/-- What an operand without signs begins with. -/
def openers : List Shape :=
  [.word, .number, .string, .symbol .leftParen, .symbol .leftBracket, .symbol .leftBrace]

/-- What a phrase begins with. -/
def Phrase.starters : Phrase → List Shape
  | .operation _ _ | .signed _ | .items _ => .symbol .bang :: .symbol .minus :: openers
  | .accessed _ | .primary _ => openers
  | .entries _ => [.word, .string]

/-- What a phrase ends with. -/
def enders : List Shape :=
  [.word, .number, .string, .symbol .rightParen, .symbol .rightBracket, .symbol .rightBrace]

theorem joins_symbol {shape : Shape} (h : shape ∈ enders) (s : Symbol) :
    shape.joins (.symbol s) := by
  have hall : ∀ shape ∈ enders, shape.joins (.symbol s) := by
    cases s <;> decide
  exact hall shape h

theorem symbol_joins {s : Symbol} (hs : s ≠ .dot) {shape : Shape}
    (h : shape ∈ Shape.symbol .bang :: .symbol .minus :: openers) :
    (Shape.symbol s).joins shape := by
  have hall : ∀ shape ∈ Shape.symbol .bang :: .symbol .minus :: openers,
      (Shape.symbol s).joins shape := by
    cases s <;> first
      | exact absurd rfl hs
      | decide
  exact hall shape h

theorem Phrase.starters_subset (phrase : Phrase) {shape : Shape} (h : shape ∈ phrase.starters) :
    shape ∈ Shape.symbol .bang :: .symbol .minus :: openers := by
  cases phrase with
  | accessed e => exact List.mem_cons_of_mem _ (List.mem_cons_of_mem _ h)
  | primary e => exact List.mem_cons_of_mem _ (List.mem_cons_of_mem _ h)
  | entries es =>
    have hall : ∀ shape ∈ [Shape.word, .string],
        shape ∈ Shape.symbol .bang :: .symbol .minus :: openers := by
      decide
    exact hall shape h
  | _ => exact h

/-- The tokens fit together, and they begin and end in such a way that others can be put around
them. -/
structure Fits (first : List Shape) (ts : List Token) : Prop where
  nonempty : ts ≠ []
  chain : ts.IsChain Token.Joins
  first : ∀ t ∈ ts.head?, t.shape ∈ first
  last : ∀ t ∈ ts.getLast?, t.shape ∈ enders

namespace Fits

variable {first second : List Shape} {ts us : List Token} {s : Symbol}

theorem single {t : Token} (shape : Shape) (hshape : t.shape = shape) (hfirst : shape ∈ first)
    (hlast : shape ∈ enders) : Fits first [t] where
  nonempty := by simp
  chain := .singleton t
  first := by simpa [hshape] using hfirst
  last := by simpa [hshape] using hlast

theorem mono (h : Fits first ts) (hsub : ∀ shape ∈ first, shape ∈ second) : Fits second ts :=
  { h with first := fun t ht => hsub _ (h.first t ht) }

theorem before (h : Fits first ts) (hjoins : ∀ shape ∈ first, (Shape.symbol s).joins shape) :
    Fits [.symbol s] (.symbol s :: ts) where
  nonempty := by simp
  chain := h.chain.cons fun t ht => hjoins _ (h.first t ht)
  first := by simp [Token.shape]
  last := by
    obtain ⟨t, more, rfl⟩ := List.exists_cons_of_ne_nil h.nonempty
    rw [List.getLast?_cons_cons]
    exact h.last

theorem append (h : Fits first ts) (hrest : Fits [.symbol s] us) : Fits first (ts ++ us) where
  nonempty := by simp [h.nonempty]
  chain := by
    refine h.chain.append hrest.chain fun t ht u hu => ?_
    have hshape : u.shape = .symbol s := List.mem_singleton.1 (hrest.first u hu)
    rw [Token.Joins, hshape]
    exact joins_symbol (h.last t ht) s
  first := by
    rw [List.head?_append_of_ne_nil _ h.nonempty]
    exact h.first
  last := by
    rw [List.getLast?_append_of_ne_nil _ hrest.nonempty]
    exact hrest.last

theorem enclosed (h : Fits first ts) (hjoins : ∀ shape ∈ first, (Shape.symbol s).joins shape)
    {close : Symbol} (hclose : .symbol close ∈ enders) :
    Fits [.symbol s] (.symbol s :: (ts ++ [.symbol close])) :=
  (h.append (single (.symbol close) rfl List.mem_cons_self hclose)).before hjoins

/-- A phrase between others, or in brackets. -/
theorem behind {phrase : Phrase} (h : Fits phrase.starters ts) (hs : s ≠ .dot) :
    Fits [.symbol s] (.symbol s :: ts) :=
  h.before fun _ hshape => symbol_joins hs (phrase.starters_subset hshape)

theorem between {phrase : Phrase} (h : Fits phrase.starters ts) (hs : s ≠ .dot) {close : Symbol}
    (hclose : .symbol close ∈ enders) : Fits [.symbol s] (.symbol s :: (ts ++ [.symbol close])) :=
  h.enclosed (fun _ hshape => symbol_joins hs (phrase.starters_subset hshape)) hclose

theorem key {name : String} {t : Token} (hkey : Names name t) :
    Fits [.word, .string] [t] := by
  cases hkey with
  | ident => exact single .word rfl (by decide) (by decide)
  | str => exact single .string rfl (by decide) (by decide)

end Fits

theorem Operates.ne_dot {level : Nat} {s : Symbol} {make : Expr → Expr → Expr}
    (h : Operates level s make) : s ≠ .dot := by
  cases h <;> decide

theorem Derives.fits {phrase : Phrase} {ts : List Token} (h : Derives phrase ts) :
    Fits phrase.starters ts := by
  -- Only a point may not stand in front of every phrase, and nothing but a name follows a point.
  induction h with
  | operation hs hleft hright ihleft ihright => exact ihleft.append (ihright.behind hs.ne_dot)
  | operand hlevel h ih => exact ih
  | signed h ih => exact ih
  | sign hs h ih =>
    cases hs with
    | bang => exact (ih.behind (by decide)).mono (by simp [Phrase.starters])
    | minus => exact (ih.behind (by decide)).mono (by simp [Phrase.starters])
  | accessed h ih => exact ih.mono fun _ => (Phrase.accessed _).starters_subset
  | @member object name ts h ih =>
    have hname : Fits [.word] [.ident name] := .single .word rfl (by decide) (by decide)
    exact ih.append (hname.before (by decide))
  | index h hposition ih ihposition =>
    exact ih.append (ihposition.between (by decide) (by decide))
  | primary h ih => exact ih
  | null => exact .single .word rfl (show _ ∈ openers by decide) (by decide)
  | bool b => exact .single .word rfl (show _ ∈ openers by decide) (by decide)
  | num x => exact .single .number rfl (show _ ∈ openers by decide) (by decide)
  | str content => exact .single .string rfl (show _ ∈ openers by decide) (by decide)
  | ident name => exact .single .word rfl (show _ ∈ openers by decide) (by decide)
  | paren h ih =>
    exact (ih.between (by decide) (by decide)).mono (by simp [Phrase.starters, openers])
  | emptyList =>
    have hclose : Fits [.symbol .rightBracket] [.symbol .rightBracket] :=
      .single _ rfl (by decide) (by decide)
    exact (hclose.before (by decide)).mono (by simp [Phrase.starters, openers])
  | list h ih =>
    exact (ih.between (by decide) (by decide)).mono (by simp [Phrase.starters, openers])
  | emptyObject =>
    have hclose : Fits [.symbol .rightBrace] [.symbol .rightBrace] :=
      .single _ rfl (by decide) (by decide)
    exact (hclose.before (by decide)).mono (by simp [Phrase.starters, openers])
  | object h ih =>
    exact (ih.between (by decide) (by decide)).mono (by simp [Phrase.starters, openers])
  | item h ih => exact ih
  | items h hrest ih ihrest => exact ih.append (ihrest.behind (by decide))
  | entry hkey h ih => exact (Fits.key hkey).append (ih.behind (by decide))
  | entries hkey h hrest ih ihrest =>
    have hfirst := (Fits.key hkey).append (ih.behind (s := .colon) (by decide))
    have hall := hfirst.append (ihrest.behind (s := .comma) (by decide))
    simpa [Phrase.starters] using hall

theorem Derives.noAssign {phrase : Phrase} {ts : List Token} (h : Derives phrase ts) :
    .symbol .assign ∉ ts := by
  induction h with
  | operation hs hleft hright ihleft ihright =>
    cases hs <;> simp [ihleft, ihright]
  | sign hs h ih => cases hs <;> simp [ih]
  | entry hkey h ih => cases hkey <;> simp [ih]
  | entries hkey h hrest ih ihrest => cases hkey <;> simp [ih, ihrest]
  | _ => simp [*]

theorem States.fits {statement : Stmt} {ts : List Token} (h : States statement ts) :
    Fits (.symbol .bang :: .symbol .minus :: openers) ts := by
  cases h with
  | @assign name value ts h =>
    have hname : Fits [.word] [.ident name] := .single .word rfl (by decide) (by decide)
    exact (hname.append (h.fits.behind (by decide))).mono (by decide)
  | expr h => exact h.fits

theorem Programs.chain {statements : List Stmt} {ts : List Token} (h : Programs statements ts) :
    ts.IsChain Token.Joins ∧
      ∀ t ∈ ts.head?, t.shape ∈ Shape.symbol .bang :: .symbol .minus :: openers := by
  have hends : ∀ {statement ts}, States statement ts → ∀ t ∈ ts.getLast?,
      t.Joins (.symbol .semicolon) :=
    fun h t ht => joins_symbol (h.fits.last t ht) .semicolon
  induction h with
  | last h => exact ⟨h.fits.chain, h.fits.first⟩
  | ended h =>
    refine ⟨h.fits.chain.append (.singleton _) ?_, ?_⟩
    · intro t ht u hu
      obtain rfl : .symbol .semicolon = u := by simpa using hu
      exact hends h t ht
    · rw [List.head?_append_of_ne_nil _ h.fits.nonempty]
      exact h.fits.first
  | more h hrest ih =>
    obtain ⟨hchain, hfirst⟩ := ih
    refine ⟨h.fits.chain.append (hchain.cons fun u hu => ?_) ?_, ?_⟩
    · exact symbol_joins (by decide) (hfirst u hu)
    · intro t ht u hu
      obtain rfl : .symbol .semicolon = u := by simpa using hu
      exact hends h t ht
    · rw [List.head?_append_of_ne_nil _ h.fits.nonempty]
      exact h.fits.first

end TreeStream.Grammar
