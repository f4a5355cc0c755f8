import PropCatalog.Outline.Basic
import PropCatalog.Text.Search

/-!
# Defaults of props

The defaults of a component's props are those of the names that its implementing function takes out
of a parameter. The function is found by name, through variables and wrapper calls, or through the
default export; failing that, the first function whose parameter is annotated with the props
declaration is taken.
-/

namespace PropCatalog

/-- How many steps an expression is followed. -/
def followLimit : Nat := 9

/-- Follows an expression to a function: through the first argument of a call and through names that
were not visited before. The names visited so far are given back beside the result. -/
def follow (o : Outline) : Nat → Expr → List String → Option Callable × List String
  | 0, _, visited => (none, visited)
  | _ + 1, .function _ function, visited => (function, visited)
  | _ + 1, .other _, visited => (none, visited)
  | _ + 1, .call _ _ [] _, visited => (none, visited)
  | limit + 1, .call _ _ (first :: _) _, visited => follow o limit first visited
  | limit + 1, .identifier _ name, visited =>
    if visited.contains name then (none, visited)
    else
      let visited := name :: visited
      match o.function? name with
      | some function => (some function, visited)
      | none =>
        match o.variableNamed? name with
        | some { initializer := some value, .. } => follow o limit value visited
        | _ => (none, visited)

/-- Follows the value of a variable. -/
def followVariable (o : Outline) (v : Variable) : Option Callable × List String :=
  match v.initializer with
  | some value => follow o followLimit value [v.name]
  | none => (none, [v.name])

/-- The function that implements the component of the given name. -/
def implementation? (o : Outline) (name : String) : Option Callable :=
  match o.function? name with
  | some function => some function
  | none =>
    let (found, visited) :=
      match o.variableNamed? name with
      | some v => followVariable o v
      | none => (none, [])
    match found with
    | some function => some function
    | none =>
      match o.defaultExport with
      | some (.declaration function) => some function
      | some (.expression value) => (follow o followLimit value visited).1
      | none => none

/-- The functions of a module: the declared ones, then those that variables hold, each with the
annotation of its variable. -/
def functionsInOrder (o : Outline) : List (Callable × Option String) :=
  o.functions.map (·, none) ++
    o.vars.filterMap fun v => (followVariable o v).1.map (·, v.declaredType)

/-- The annotation that applies to a parameter: its own, or that of the variable around it. -/
def paramTypeText (param : Param) (context : Option String) : String :=
  let own := param.declaredType.getD ""
  if own == "" then context.getD "" else own

/-- Whether a function takes names out of a parameter annotated with the given props name. -/
def isAnnotatedWith (propsName : String) (entry : Callable × Option String) : Bool :=
  entry.1.params.any fun param =>
    param.bindings.isSome &&
      Text.contains propsName.toList (paramTypeText param entry.2).toList

/-- The function whose defaults count. -/
def defaultsFunction? (o : Outline) (name propsName : String) : Option Callable :=
  match implementation? o name with
  | some function =>
    if function.bindings?.isSome then some function
    else ((functionsInOrder o).find? (isAnnotatedWith propsName)).map (·.1)
  | none => ((functionsInOrder o).find? (isAnnotatedWith propsName)).map (·.1)

/-- The texts of the defaults, by prop. -/
def propDefaults (o : Outline) (name propsName : String) : List (String × String) :=
  match defaultsFunction? o name propsName with
  | some function =>
    (function.bindings?.getD []).filterMap fun (key, default) => default.map (key, ·)
  | none => []

end PropCatalog
