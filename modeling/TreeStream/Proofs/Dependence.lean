import TreeStream.Proofs.Overlays
import TreeStream.Proofs.Sequence

/-!
# What a program reads and what it writes

The value of a program and its assignments depend on the variables that it names, and it changes
only those that it assigns.  Names of parts and of entries are no variables.

* `Expr.reads` and `Stmt.reads`: the variables that are named.
* `Expr.eval_congr`, `evaluateProgram_congr`: other variables do not matter.
* `Expr.eval_blames`: only a variable that is named and has no value is said to be undefined.
* `Scope.evaluate_dependence`: both for texts in scopes.
-/

namespace TreeStream
set_option autoImplicit false

mutual

/-- The variables that an expression names. -/
def Expr.reads : Expr → List String
  | .null | .bool _ | .num _ | .str _ => []
  | .list items => readsItems items
  | .obj entries => readsEntries entries
  | .ident name => [name]
  | .member object _ => object.reads
  | .index object position => object.reads ++ position.reads
  | .unary _ operand => operand.reads
  | .or left right | .and left right | .binary _ left right => left.reads ++ right.reads

/-- The variables that expressions name. -/
def Expr.readsItems : List Expr → List String
  | [] => []
  | item :: items => item.reads ++ readsItems items

/-- The variables that the expressions of entries name. -/
def Expr.readsEntries : List (String × Expr) → List String
  | [] => []
  | (_, item) :: entries => item.reads ++ readsEntries entries

end

/-- The variables that the expression of a statement names. -/
def Stmt.reads (stmt : Stmt) : List String :=
  stmt.value.reads

/-! ## Other variables do not matter -/

section Agreement

variable {vars vars' : Vars}

/-- The variables have the same values, or none, under these names. -/
def Agree (names : List String) (vars vars' : Vars) : Prop :=
  ∀ name ∈ names, vars.get? name = vars'.get? name

theorem Agree.left {xs ys : List String} (h : Agree (xs ++ ys) vars vars') : Agree xs vars vars' :=
  fun name hname => h name (List.mem_append_left _ hname)

theorem Agree.right {xs ys : List String} (h : Agree (xs ++ ys) vars vars') :
    Agree ys vars vars' :=
  fun name hname => h name (List.mem_append_right _ hname)

theorem Agree.put {names : List String} (h : Agree names vars vars') (name : String)
    (value : Value) : Agree names (vars.put name value) (vars'.put name value) := by
  intro other hother
  rw [Table.get?_put, Table.get?_put, h other hother]

mutual

theorem Expr.eval_congr (e : Expr) (h : Agree e.reads vars vars') :
    e.eval vars = e.eval vars' := by
  cases e with
  | null => rfl
  | bool b => rfl
  | num x => rfl
  | str s => rfl
  | list items => rw [Expr.eval, Expr.eval, evalItems_congr items h]
  | obj entries => rw [Expr.eval, Expr.eval, evalEntries_congr entries h]
  | ident name => rw [Expr.eval, Expr.eval, h name List.mem_cons_self]
  | member object name => rw [Expr.eval, Expr.eval, eval_congr object h]
  | index object position =>
    rw [Expr.eval, Expr.eval, eval_congr object h.left, eval_congr position h.right]
  | unary op operand => rw [Expr.eval, Expr.eval, eval_congr operand h]
  | or left right => rw [Expr.eval, Expr.eval, eval_congr left h.left, eval_congr right h.right]
  | and left right => rw [Expr.eval, Expr.eval, eval_congr left h.left, eval_congr right h.right]
  | binary op left right =>
    rw [Expr.eval, Expr.eval, eval_congr left h.left, eval_congr right h.right]

theorem Expr.evalItems_congr (items : List Expr) (h : Agree (readsItems items) vars vars') :
    evalItems vars items = evalItems vars' items := by
  cases items with
  | nil => rfl
  | cons item items =>
    rw [evalItems, evalItems, eval_congr item h.left, evalItems_congr items h.right]

theorem Expr.evalEntries_congr (entries : List (String × Expr))
    (h : Agree (readsEntries entries) vars vars') :
    evalEntries vars entries = evalEntries vars' entries := by
  cases entries with
  | nil => rfl
  | cons entry entries =>
    obtain ⟨name, item⟩ := entry
    rw [evalEntries, evalEntries, eval_congr item h.left, evalEntries_congr entries h.right]

end

theorem evaluateProgram_congr {p : List Stmt} {last : Value}
    (h : Agree (p.flatMap Stmt.reads) vars vars') :
    evaluateProgram last vars p = evaluateProgram last vars' p := by
  induction p generalizing last vars vars' with
  | nil => rfl
  | cons stmt p ih =>
    rw [List.flatMap_cons] at h
    cases stmt with
    | assign name e =>
      have heval : e.eval vars = e.eval vars' := e.eval_congr h.left
      rw [evaluateProgram, evaluateProgram, heval]
      split
      · rfl
      · rw [ih (h.right.put name _)]
    | expr e =>
      have heval : e.eval vars = e.eval vars' := e.eval_congr h.left
      rw [evaluateProgram, evaluateProgram, heval]
      split
      · rfl
      · exact ih h.right

end Agreement

/-! ## What is undefined -/

section Blame

variable {α β : Type} {vars : Vars} {names others : List String}

/-- The outcome says only of some names that they are undefined, and only if they have no value. -/
def Blames (vars : Vars) (names : List String) (outcome : Except EvalError α) : Prop :=
  ∀ name, outcome = .error (.undefined name) → name ∈ names ∧ vars.get? name = none

namespace Blames

theorem ok (a : α) : Blames vars names (.ok a) := by
  intro name h
  cases h

theorem type (report : String) :
    Blames vars names (.error (.type report) : Except EvalError α) := by
  intro name h
  cases h

theorem bind {outcome : Except EvalError α} {next : α → Except EvalError β}
    (h : Blames vars names outcome) (hnext : ∀ a, Blames vars names (next a)) :
    Blames vars names (outcome >>= next) := by
  intro name hname
  cases outcome with
  | error error => exact h name (congrArg Except.error (Except.error.inj hname))
  | ok a => exact hnext a name hname

theorem map {outcome : Except EvalError α} (h : Blames vars names outcome) (f : α → β) :
    Blames vars names (outcome.map f) := by
  intro name hname
  cases outcome with
  | error error => exact h name (congrArg Except.error (Except.error.inj hname))
  | ok a => cases hname

theorem mono {outcome : Except EvalError α} (h : Blames vars names outcome)
    (hsub : ∀ name ∈ names, name ∈ others) : Blames vars others outcome := by
  intro name hname
  obtain ⟨hmem, hnone⟩ := h name hname
  exact ⟨hsub name hmem, hnone⟩

theorem left {outcome : Except EvalError α} (h : Blames vars names outcome) :
    Blames vars (names ++ others) outcome :=
  h.mono fun _ => List.mem_append_left others

theorem right {outcome : Except EvalError α} (h : Blames vars others outcome) :
    Blames vars (names ++ others) outcome :=
  h.mono fun _ => List.mem_append_right names

theorem of_nil {outcome : Except EvalError α} (h : Blames vars [] outcome) :
    Blames vars names outcome :=
  h.mono fun _ => nofun

end Blames

/-! Operators and parts fail only with an error of type, whatever the variables are. -/

theorem Value.toNumber_blames (value : Value) : Blames vars [] value.toNumber := by
  cases value with
  | null => exact .ok _
  | bool b => exact .ok _
  | num x => exact .ok _
  | str s =>
    rw [toNumber]
    split
    · exact .ok _
    · exact .type _
  | list items => exact .type _
  | obj entries => exact .type _

theorem Value.property_blames (value : Value) (name : String) :
    Blames vars [] (value.property name) := by
  cases value with
  | null => exact .type _
  | _ => exact .ok _

theorem Value.part_blames (object position : Value) : Blames vars [] (object.part position) := by
  unfold part
  split
  · exact .ok _
  · exact .ok _
  · exact property_blames _ _
  · exact .type _

theorem Value.numbers_blames (left right : Value) {next : Float → Float → Except EvalError α}
    (hnext : ∀ x y, Blames vars [] (next x y)) :
    Blames vars [] (left.toNumber >>= fun x => right.toNumber >>= fun y => next x y) :=
  left.toNumber_blames.bind fun x => right.toNumber_blames.bind (hnext x)

theorem Value.order_blames (numbers : Float → Float → Bool) (texts : String → String → Bool)
    (left right : Value) : Blames vars [] (order numbers texts left right) := by
  unfold order
  split
  · exact .ok _
  · exact numbers_blames _ _ fun _ _ => .ok _

theorem Value.add_blames (left right : Value) : Blames vars [] (add left right) := by
  unfold add
  split
  · exact .ok _
  · exact .ok _
  · exact numbers_blames _ _ fun _ _ => .ok _

theorem Value.arithmetic_blames (operation : Float → Float → Float) (left right : Value) :
    Blames vars [] (arithmetic operation left right) :=
  numbers_blames left right fun _ _ => .ok _

theorem Value.division_blames (operation : Float → Float → Float) (refusal : String)
    (left right : Value) : Blames vars [] (division operation refusal left right) := by
  refine right.toNumber_blames.bind fun y => ?_
  split
  · exact .type _
  · exact left.toNumber_blames.bind fun _ => .ok _

theorem BinaryOp.apply_blames (op : BinaryOp) (left right : Value) :
    Blames vars [] (op.apply left right) := by
  cases op with
  | eq => exact .ok _
  | ne => exact .ok _
  | lt => exact Value.order_blames _ _ left right
  | le => exact Value.order_blames _ _ left right
  | gt => exact Value.order_blames _ _ left right
  | ge => exact Value.order_blames _ _ left right
  | add => exact Value.add_blames left right
  | sub => exact Value.arithmetic_blames _ left right
  | mul => exact Value.arithmetic_blames _ left right
  | div => exact Value.division_blames _ _ left right
  | mod => exact Value.division_blames _ _ left right

theorem UnaryOp.apply_blames (op : UnaryOp) (value : Value) : Blames vars [] (op.apply value) := by
  cases op with
  | not => exact .ok _
  | neg => exact value.toNumber_blames.map _

mutual

theorem Expr.eval_blames (e : Expr) : Blames vars e.reads (e.eval vars) := by
  cases e with
  | null => exact .ok _
  | bool b => exact .ok _
  | num x => exact .ok _
  | str s => exact .ok _
  | list items => exact (evalItems_blames items).map _
  | obj entries => exact (evalEntries_blames entries).map _
  | ident name =>
    rw [Expr.eval]
    intro other h
    cases hvalue : vars.get? name with
    | some value => simp [hvalue] at h
    | none =>
      obtain rfl : name = other := by simpa [hvalue] using h
      exact ⟨List.mem_cons_self, hvalue⟩
  | member object name =>
    exact (eval_blames object).bind fun value => (value.property_blames name).of_nil
  | index object position =>
    refine (eval_blames object).left.bind fun value => ?_
    exact (eval_blames position).right.bind fun place => (value.part_blames place).of_nil
  | unary op operand => exact (eval_blames operand).bind fun value => (op.apply_blames value).of_nil
  | or left right =>
    refine (eval_blames left).left.bind fun value => ?_
    split
    · exact .ok _
    · exact (eval_blames right).right
  | and left right =>
    refine (eval_blames left).left.bind fun value => ?_
    split
    · exact (eval_blames right).right
    · exact .ok _
  | binary op left right =>
    refine (eval_blames left).left.bind fun value => ?_
    exact (eval_blames right).right.bind fun other => (op.apply_blames value other).of_nil

theorem Expr.evalItems_blames (items : List Expr) :
    Blames vars (readsItems items) (evalItems vars items) := by
  cases items with
  | nil => exact .ok _
  | cons item items =>
    refine (eval_blames item).left.bind fun value => ?_
    exact (evalItems_blames items).right.bind fun values => .ok _

theorem Expr.evalEntries_blames (entries : List (String × Expr)) :
    Blames vars (readsEntries entries) (evalEntries vars entries) := by
  cases entries with
  | nil => exact .ok _
  | cons entry entries =>
    refine (eval_blames entry.2).left.bind fun value => ?_
    exact (evalEntries_blames entries).right.bind fun values => .ok _

end

end Blame

/-! ## Programs -/

variable {p : List Stmt} {last : Value} {vars : Vars}

/-- Only the names that statements assign are assigned. -/
theorem evaluateProgram_assigns {name : String}
    (h : name ∈ (evaluateProgram last vars p).assignments.map Prod.fst) :
    name ∈ p.filterMap Stmt.target? := by
  rcases hrun : evaluateProgram last vars p with ⟨error | value, assigned⟩
  · have herror : (evaluateProgram last vars p).result = .error error := by rw [hrun]
    obtain ⟨done, failing, rest, value, rfl, hdone, -⟩ := evaluateProgram_error herror
    rw [evaluateProgram_targets hdone] at h
    rw [List.filterMap_append]
    exact List.mem_append_left _ h
  · rw [hrun, evaluateProgram_targets hrun] at h
    exact h

/-- What is undefined had no value at the beginning and is not assigned before. -/
theorem evaluateProgram_undefined {name : String}
    (h : (evaluateProgram last vars p).result = .error (.undefined name)) :
    ∃ done failing rest, p = done ++ failing :: rest ∧ name ∈ failing.reads ∧
      name ∉ done.filterMap Stmt.target? ∧ vars.get? name = none := by
  obtain ⟨done, failing, rest, value, hsplit, hdone, hfailing⟩ := evaluateProgram_error h
  obtain ⟨hread, hnone⟩ := failing.value.eval_blames name hfailing
  have hassigned : name ∉ (evaluateProgram last vars p).assignments.map Prod.fst :=
    fun hmem => Scope.get?_putAll_of_mem vars hmem hnone
  refine ⟨done, failing, rest, hsplit, hread, ?_, ?_⟩
  · rwa [evaluateProgram_targets hdone] at hassigned
  · rwa [Scope.get?_putAll_of_notMem _ _ _ hassigned] at hnone

namespace Scope

/-- A program depends on the variables that it names, and changes those that it assigns. -/
theorem evaluate_dependence (report : String → String) {source : String}
    (h : Grammar.parse? source = some p) :
    (∀ s t : Scope, (∀ name ∈ p.flatMap Stmt.reads, s.get? name = t.get? name) →
      (s.evaluate (builtinWith report) source).1 = (t.evaluate (builtinWith report) source).1 ∧
      (builtinWith report source s.vars).assignments =
        (builtinWith report source t.vars).assignments) ∧
    ∀ s : Scope,
      (s.evaluate (builtinWith report) source).2 =
        s.setAll (builtinWith report source s.vars).assignments ∧
      (∀ name ∈ (builtinWith report source s.vars).assignments.map Prod.fst,
        name ∈ p.filterMap Stmt.target?) ∧
      (∀ name, name ∉ p.filterMap Stmt.target? →
        (s.evaluate (builtinWith report) source).2.get? name = s.get? name) ∧
      (s.evaluate (builtinWith report) source).2.overlays = s.overlays ∧
      ∀ name, (s.evaluate (builtinWith report) source).1 = .error (.undefined name) →
        ∃ done failing rest, p = done ++ failing :: rest ∧ name ∈ failing.reads ∧
          name ∉ done.filterMap Stmt.target? ∧ s.get? name = none := by
  have hrun : ∀ s : Scope, builtinWith report source s.vars = evaluateProgram .null s.vars p := by
    intro s
    simp only [builtinWith, h]
  refine ⟨?_, ?_⟩
  · intro s t hagree
    have heq : builtinWith report source s.vars = builtinWith report source t.vars := by
      rw [hrun, hrun]
      exact evaluateProgram_congr hagree
    exact ⟨congrArg Evaluation.result heq, congrArg Evaluation.assignments heq⟩
  · intro s
    have hassigns : ∀ name ∈ (builtinWith report source s.vars).assignments.map Prod.fst,
        name ∈ p.filterMap Stmt.target? := by
      intro name hname
      rw [hrun] at hname
      exact evaluateProgram_assigns hname
    refine ⟨rfl, hassigns, ?_, rfl, ?_⟩
    · intro name hname
      exact get?_putAll_of_notMem _ _ _ fun hmem => hname (hassigns name hmem)
    · intro name hundefined
      have herror : (builtinWith report source s.vars).result = .error (.undefined name) :=
        hundefined
      rw [hrun] at herror
      exact evaluateProgram_undefined herror

/-- The name of a part is no variable. -/
theorem evaluate_dependence_part :
    Grammar.parse? "a = b.d; c" =
      some [.assign "a" (.member (.ident "b") "d"), .expr (.ident "c")] ∧
    ((ofList [("b", .str "x")]).evaluate builtin "a = b.d; c").1 =
      ((ofList [("b", .str "x"), ("d", .str "y")]).evaluate builtin "a = b.d; c").1 := by
  have htext : "a = b.d; c".toList = ['a', ' ', '=', ' ', 'b', '.', 'd', ';', ' ', 'c'] := rfl
  have hparse : Grammar.parse? "a = b.d; c" =
      some [.assign "a" (.member (.ident "b") "d"), .expr (.ident "c")] := by
    rw [Grammar.parse?, htext]
    rfl
  refine ⟨hparse, ((evaluate_dependence _ hparse).1 _ _ ?_).1⟩
  intro name hname
  obtain rfl | rfl : name = "b" ∨ name = "c" := by
    simpa [Stmt.reads, Stmt.value, Expr.reads] using hname
  · rfl
  · rfl

end Scope
end TreeStream
