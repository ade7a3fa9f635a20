import ShaderGraph.Pass.Emission

/-!
# Function bodies

The code of a result is fixed as two texts: the declarations of temporaries that have to come
before it, and its value.
-/

namespace ShaderGraph

/-- The fixed code of a result. -/
structure Body where
  /-- The declarations of the temporaries that `value` reads. -/
  definitions : String := ""
  value : String := ""

/-- The body of a result, whose declarations are among the chunks from `start` to before `stop`. A
literal needs none, and no result is written as zero. -/
def Scope.body (s : Scope) (start stop : Nat) : Code → Except Fault Body
  | none => .ok ⟨"", "0"⟩
  | some i =>
    match s[i]? with
    | none => .error .resultOutOfRange
    | some c =>
      match c.form with
      | .uniform u => if u.expr.isConstant then .ok ⟨"", c.text⟩ else .error .resultNotRead
      | .inline => .ok ⟨s.declarations start stop, c.text⟩
      | .temporary number => .ok ⟨s.declarations start stop, temporaryName number⟩

/-- The body of a function of its own that computes code of the current scope. -/
def Context.functionBody (ctx : Context) (c : Code) : PassM Body := do
  if ← ctx.isDeferred c then return ⟨"", ← ctx.textOf c⟩
  else
    let scope ← ctx.chunks
    match scope.body 0 scope.length c with
    | .ok body => return body
    | .error fault => throw fault

/-- A generated function. -/
def functionText (type : ValueType) (name parameters : String) (body : Body) : String :=
  type.sourceName ++ " " ++ name ++ "(" ++ parameters ++ " Parameters)\n\x7b\n" ++
    body.definitions ++ " return " ++ body.value ++ ";\n\x7d\n"

/-- Adds a generated function. -/
def Pass.addImplementation (text : String) : PassM Unit :=
  modify fun p => { p with implementations := p.implementations ++ [text] }

end ShaderGraph
