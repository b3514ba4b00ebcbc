import TreeStream.Expr.Eval
import TreeStream.Proofs.Parsing

/-!
# Programs one after the other

Two program texts with a semicolon between them are one program, which does what the first does and,
unless that fails, then what the second does.

* `Grammar.Renders.join`: the statements of the joined text are those of the two, in turn.
* `evaluateProgram_append`: what statements do before others.
* `evaluateProgram_error`: what fails is one statement; the assignments are those before it.
* `Scope.evaluate_join`: joined texts are evaluated in turn.
-/

namespace TreeStream
set_option autoImplicit false

/-! ## Joined texts -/

namespace Token

variable {tokens others : List Token} {cs ds : List Char}

theorem spelled_semicolon : Spelled (.symbol .semicolon) [';'] :=
  .symbol List.mem_cons_self

theorem Spells.join (h : Spells tokens cs) (hothers : Spells others ds) :
    Spells (tokens ++ .symbol .semicolon :: others) (cs ++ ';' :: ds) := by
  induction h with
  | @nil blanks hblanks =>
    have hall := Spells.cons hblanks spelled_semicolon hothers
    simpa using hall
  | @cons blanks text rest token tokens hblanks htoken _ ih =>
    have hall := Spells.cons hblanks htoken ih
    simpa using hall

/-- Behind a semicolon that is the last token stand only blanks. -/
theorem Spells.of_semicolon (h : Spells (tokens ++ [.symbol .semicolon]) cs) :
    ∃ front blanks, cs = front ++ ';' :: blanks ∧ ∀ c ∈ blanks, isBlank c := by
  induction tokens generalizing cs with
  | nil =>
    cases h with
    | @cons blanks text rest _ _ _ htoken hrest =>
      cases htoken with
      | symbol htext =>
        obtain rfl : text = [';'] := by simpa [Symbol.spellings] using htext
        cases hrest with
        | nil hblanks => exact ⟨blanks, rest, by simp, hblanks⟩
  | cons token tokens ih =>
    cases h with
    | @cons blanks text _ _ _ _ _ hrest =>
      obtain ⟨front, rest, rfl, hblanks⟩ := ih hrest
      exact ⟨blanks ++ text ++ front, rest, by simp, hblanks⟩

theorem isBlank_of_isBlank {c : Char} (h : isBlank c) : Text.isBlank c := by
  simp only [isBlank, Bool.or_eq_true, decide_eq_true_eq] at h
  rcases h with ((rfl | rfl) | rfl) | rfl <;> decide

theorem getLast?_trimEndChars {front blanks : List Char} (hblanks : ∀ c ∈ blanks, isBlank c) :
    (Text.trimEndChars (front ++ ';' :: blanks)).getLast? = some ';' := by
  have hall : ∀ c ∈ blanks.reverse, Text.isBlank c := fun c hc =>
    isBlank_of_isBlank (hblanks c (List.mem_reverse.1 hc))
  have hsemicolon : ¬ Text.isBlank ';' := by decide
  have hreverse : (front ++ ';' :: blanks).reverse = blanks.reverse ++ ';' :: front.reverse := by
    simp
  rw [Text.trimEndChars, hreverse, List.dropWhile_append_of_pos hall,
    List.dropWhile_cons_of_neg hsemicolon, List.getLast?_reverse, List.head?_cons]

end Token

namespace Grammar

variable {p q : List Stmt} {ts us : List Token}

theorem Programs.join (h : Programs p ts) (hlast : ts.getLast? ≠ some (.symbol .semicolon))
    (hothers : Programs q us) : Programs (p ++ q) (ts ++ .symbol .semicolon :: us) := by
  -- A program that ends with a semicolon leaves no place for another one.
  induction h with
  | last hfirst => exact .more hfirst hothers
  | ended hfirst => exact absurd List.getLast?_concat hlast
  | @more stmt stmts ts vs hfirst hrest ih =>
    have hrest' : vs.getLast? ≠ some (.symbol .semicolon) := by
      intro hvs
      apply hlast
      rw [List.getLast?_append_of_ne_nil _ (List.cons_ne_nil _ _), List.getLast?_cons, hvs]
      rfl
    have hall := Programs.more hfirst (ih hrest')
    simpa using hall

theorem renders_of_parse? {source : String} (h : parse? source = some p) : Renders source p := by
  obtain ⟨tokens, htokens, hprogram⟩ := Option.bind_eq_some_iff.1 h
  exact ⟨tokens, program?_eq_some_iff.1 hprogram, Token.spells_of_scan htokens⟩

theorem ne_nil_of_parse? {source : String} (h : parse? source = some p) : p ≠ [] := by
  obtain ⟨tokens, hprogram, -⟩ := renders_of_parse? h
  cases hprogram <;> exact List.cons_ne_nil _ _

/-- A semicolon goes between two programs, unless the first has one at its end. -/
theorem Renders.join {first second : String} (hfirst : Renders first p)
    (hend : (Text.trimEndChars first.toList).getLast? ≠ some ';') (hsecond : Renders second q) :
    Renders (first ++ ";" ++ second) (p ++ q) := by
  obtain ⟨ts, hprogram, hspells⟩ := hfirst
  obtain ⟨us, hothers, hspelled⟩ := hsecond
  have hlast : ts.getLast? ≠ some (.symbol .semicolon) := by
    intro hlast
    obtain ⟨tokens, rfl⟩ := List.getLast?_eq_some_iff.1 hlast
    obtain ⟨front, blanks, htext, hblanks⟩ := hspells.of_semicolon
    rw [htext] at hend
    exact hend (Token.getLast?_trimEndChars hblanks)
  refine ⟨ts ++ .symbol .semicolon :: us, hprogram.join hlast hothers, ?_⟩
  have hall := hspells.join hspelled
  simpa using hall

end Grammar

/-! ## Statements in turn -/

/-- The expression of a statement. -/
def Stmt.value : Stmt → Expr
  | .assign _ value => value
  | .expr value => value

/-- The name that a statement assigns. -/
def Stmt.target? : Stmt → Option String
  | .assign name _ => some name
  | .expr _ => none

/-- The assignments of a statement whose expression has a value. -/
def Stmt.assigns (stmt : Stmt) (value : Value) : List (String × Value) :=
  stmt.target?.toList.map fun name => (name, value)

/-- An outcome, and what follows it unless it is an error. -/
def Evaluation.andThen : Evaluation → (Value → List (String × Value) → Evaluation) → Evaluation
  | ⟨.error error, assigned⟩, _ => ⟨.error error, assigned⟩
  | ⟨.ok value, assigned⟩, next =>
    ⟨(next value assigned).result, assigned ++ (next value assigned).assignments⟩

variable {last value : Value} {vars : Vars} {error : EvalError} {p q : List Stmt}
variable {assigned : List (String × Value)}

theorem evaluateProgram_cons_error {stmt : Stmt} (h : stmt.value.eval vars = .error error) :
    evaluateProgram last vars (stmt :: p) = ⟨.error error, []⟩ := by
  cases stmt <;> simp_all [evaluateProgram, Stmt.value]

theorem evaluateProgram_cons_ok {stmt : Stmt} (h : stmt.value.eval vars = .ok value) :
    evaluateProgram last vars (stmt :: p) =
      (Evaluation.mk (.ok value) (stmt.assigns value)).andThen fun value assigned =>
        evaluateProgram value (vars.putAll assigned) p := by
  cases stmt with
  | assign name e =>
    have heval : e.eval vars = .ok value := h
    simp only [evaluateProgram, heval]
    rfl
  | expr e =>
    have heval : e.eval vars = .ok value := h
    simp only [evaluateProgram, heval]
    rfl

theorem evaluateProgram_append (last : Value) (vars : Vars) (p q : List Stmt) :
    evaluateProgram last vars (p ++ q) =
      (evaluateProgram last vars p).andThen fun value assigned =>
        evaluateProgram value (vars.putAll assigned) q := by
  induction p generalizing last vars with
  | nil => rfl
  | cons stmt p ih =>
    cases heval : stmt.value.eval vars with
    | error error =>
      rw [List.cons_append, evaluateProgram_cons_error heval, evaluateProgram_cons_error heval]
      rfl
    | ok value =>
      rw [List.cons_append, evaluateProgram_cons_ok heval, evaluateProgram_cons_ok heval]
      simp only [Evaluation.andThen, ih]
      rcases evaluateProgram value (vars.putAll (stmt.assigns value)) p with ⟨error | _, assigned⟩
      · rfl
      · simp only [Table.putAll_append, List.append_assoc]

/-- The value before the first statement counts only for a program without statements. -/
theorem evaluateProgram_last (hp : p ≠ []) (last other : Value) (vars : Vars) :
    evaluateProgram last vars p = evaluateProgram other vars p := by
  obtain ⟨stmt, p, rfl⟩ := List.exists_cons_of_ne_nil hp
  cases stmt <;> rfl

/-- A program fails at one of its statements, with the assignments of those before it. -/
theorem evaluateProgram_error (h : (evaluateProgram last vars p).result = .error error) :
    ∃ done failing rest value, p = done ++ failing :: rest ∧
      evaluateProgram last vars done = ⟨.ok value, (evaluateProgram last vars p).assignments⟩ ∧
      failing.value.eval (vars.putAll (evaluateProgram last vars p).assignments) =
        .error error := by
  induction p generalizing last vars with
  | nil => simp [evaluateProgram] at h
  | cons stmt p ih =>
    cases heval : stmt.value.eval vars with
    | error other =>
      rw [evaluateProgram_cons_error heval] at h ⊢
      obtain rfl := Except.error.inj h
      exact ⟨[], stmt, p, last, rfl, rfl, heval⟩
    | ok value =>
      rw [evaluateProgram_cons_ok heval] at h ⊢
      obtain ⟨done, failing, rest, found, rfl, hdone, hfailing⟩ := ih h
      refine ⟨stmt :: done, failing, rest, found, rfl, ?_, ?_⟩
      · rw [evaluateProgram_cons_ok heval]
        simp only [Evaluation.andThen, hdone]
      · rw [← hfailing]
        exact congrArg failing.value.eval (Table.putAll_append _ _ _)

theorem evaluateProgram_targets (h : evaluateProgram last vars p = ⟨.ok value, assigned⟩) :
    assigned.map Prod.fst = p.filterMap Stmt.target? := by
  induction p generalizing last vars assigned with
  | nil =>
    obtain ⟨-, rfl⟩ := Evaluation.mk.inj h
    rfl
  | cons stmt p ih =>
    cases heval : stmt.value.eval vars with
    | error error => simp [evaluateProgram_cons_error heval] at h
    | ok found =>
      rw [evaluateProgram_cons_ok heval] at h
      obtain ⟨hresult, rfl⟩ := Evaluation.mk.inj h
      have hnames : (stmt.assigns found).map Prod.fst = stmt.target?.toList := by
        simp [Stmt.assigns, Function.comp_def]
      have hrest := ih (congrArg (Evaluation.mk · _) hresult)
      rw [List.map_append, hrest, hnames]
      cases stmt <;> rfl

namespace Scope

theorem evaluate_of_parse? {report : String → String} {source : String}
    (h : Grammar.parse? source = some p) (scope : Scope) :
    scope.evaluate (builtinWith report) source =
      ((evaluateProgram .null scope.vars p).result,
        scope.setAll (evaluateProgram .null scope.vars p).assignments) := by
  simp only [evaluate, builtinWith, h]

theorem setAll_append (scope : Scope) (xs ys : List (String × Value)) :
    scope.setAll (xs ++ ys) = (scope.setAll xs).setAll ys :=
  congrArg (Scope.mk · scope.overlays) (Table.putAll_append scope.vars xs ys)

variable {first second : String} {report : String → String}

theorem evaluate_join_ok (hsecond : Grammar.parse? second = some q)
    (hjoin : Grammar.parse? (first ++ ";" ++ second) = some (p ++ q)) (scope : Scope)
    (hok : evaluateProgram .null scope.vars p = ⟨.ok value, assigned⟩) :
    scope.evaluate (builtinWith report) (first ++ ";" ++ second) =
      (scope.setAll assigned).evaluate (builtinWith report) second := by
  rw [evaluate_of_parse? hjoin, evaluate_of_parse? hsecond, evaluateProgram_append, hok,
    evaluateProgram_last (Grammar.ne_nil_of_parse? hsecond) .null value]
  simp only [Evaluation.andThen, setAll_append]
  rfl

theorem evaluate_join_error (hjoin : Grammar.parse? (first ++ ";" ++ second) = some (p ++ q))
    (scope : Scope) (herror : evaluateProgram .null scope.vars p = ⟨.error error, assigned⟩) :
    scope.evaluate (builtinWith report) (first ++ ";" ++ second) =
      (.error error, scope.setAll assigned) := by
  rw [evaluate_of_parse? hjoin, evaluateProgram_append, herror]
  rfl

/-- Programs that are joined by a semicolon run in turn.  When the first one fails, the scope has
the assignments of its statements before the one that fails.  A text that is no program is reported
and does nothing. -/
theorem evaluate_join (report : String → String) (scope : Scope) :
    (∀ first second p q, Grammar.parse? first = some p → Grammar.parse? second = some q →
      (Text.trimEndChars first.toList).getLast? ≠ some ';' →
      Grammar.parse? (first ++ ";" ++ second) = some (p ++ q) ∧
      scope.evaluate (builtinWith report) (first ++ ";" ++ second) =
        (match scope.evaluate (builtinWith report) first with
        | (.error error, left) => (.error error, left)
        | (.ok _, left) => left.evaluate (builtinWith report) second) ∧
      ∀ error, (scope.evaluate (builtinWith report) first).1 = .error error →
        ∃ done failing rest value assigned, p = done ++ failing :: rest ∧
          evaluateProgram .null scope.vars done = ⟨.ok value, assigned⟩ ∧
          assigned.map Prod.fst = done.filterMap Stmt.target? ∧
          failing.value.eval (scope.setAll assigned).vars = .error error ∧
          scope.evaluate (builtinWith report) (first ++ ";" ++ second) =
            (.error error, scope.setAll assigned)) ∧
    ∀ source, Grammar.parse? source = none →
      scope.evaluate (builtinWith report) source =
        (.error (.malformed (report source)), scope) := by
  refine ⟨?_, ?_⟩
  · intro first second p q hfirst hsecond hend
    have hjoin := Grammar.parse?_of_renders
      ((Grammar.renders_of_parse? hfirst).join hend (Grammar.renders_of_parse? hsecond))
    rw [evaluate_of_parse? hfirst scope]
    refine ⟨hjoin, ?_, ?_⟩
    · rcases hrun : evaluateProgram .null scope.vars p with ⟨error | value, assigned⟩
      · exact evaluate_join_error hjoin scope hrun
      · exact evaluate_join_ok hsecond hjoin scope hrun
    · intro error herror
      obtain ⟨done, failing, rest, value, hsplit, hdone, hfailing⟩ := evaluateProgram_error herror
      refine ⟨done, failing, rest, value, _, hsplit, hdone, evaluateProgram_targets hdone,
        hfailing, evaluate_join_error hjoin scope ?_⟩
      exact congrArg (Evaluation.mk · _) herror
  · intro source h
    simp only [evaluate, builtinWith, h]
    rfl

theorem evaluate_join_undefined :
    Grammar.parse? "a = 'x'; b" = some [.assign "a" (.str "x"), .expr (.ident "b")] ∧
    Grammar.parse? "a" = some [.expr (.ident "a")] ∧
    (Text.trimEndChars "a = 'x'; b".toList).getLast? ≠ some ';' ∧
    empty.evaluate builtin "a = 'x'; b;a" =
      (.error (.undefined "b"), empty.setAll [("a", .str "x")]) := by
  have htext : "a = 'x'; b".toList = ['a', ' ', '=', ' ', '\'', 'x', '\'', ';', ' ', 'b'] := rfl
  have hother : "a".toList = ['a'] := rfl
  have hfirst : Grammar.parse? "a = 'x'; b" =
      some [.assign "a" (.str "x"), .expr (.ident "b")] := by
    rw [Grammar.parse?, htext]
    rfl
  have hsecond : Grammar.parse? "a" = some [.expr (.ident "a")] := by
    rw [Grammar.parse?, hother]
    rfl
  have hend : (Text.trimEndChars "a = 'x'; b".toList).getLast? ≠ some ';' := by decide
  obtain ⟨-, hjoin, -⟩ := (evaluate_join _ empty).1 _ _ _ _ hfirst hsecond hend
  refine ⟨hfirst, hsecond, hend, hjoin.trans ?_⟩
  rw [evaluate_of_parse? hfirst]
  rfl

end Scope
end TreeStream
