import Pathwise.Step.Session

/-!
# Calls

A call takes its arguments and its qualifier from the stack, works out the result
that it has unless a contract says otherwise, and expands the contracts: each one
splits the states into those in which all its conditions hold, which have the
result of the contract, and those in which a condition fails, which go on to the
next contract. Last the call forgets what it may have changed.

Should the contracts make more states than allowed, they are ignored.
-/

namespace Pathwise.Step

/-! ## Arguments -/

/-- Reports the modification of an unmodifiable value, and goes on as if it was
modifiable. An empty array cannot be modified anyway. -/
def checkMutable (anchor : Option Anchor) (isReceiver : Bool) (v : ValueId) (s : State) :
    Step State := do
  let f ← fact s v
  if f.mutability.canBeModified then return s
  if f.bound.isArray then
    let length ← intern (·.lengthOf .array v)
    if (← fact s length).int? = some 0 then return s
  report (anchor.map (.mutability · isReceiver)) v .alwaysFails s
  return s.setFact (← arena) v (f.withMutability .mutable)

/-- Whether a value of the result type may hold a reference to something else. -/
def resultMayLeak (c : Call) : Bool := c.returnType.any fun t => (Fact.ofType t .unknown).mayLeak

/-- Whether an argument may be stored somewhere by the call. -/
def argMayLeak (c : Call) (info : MethodInfo) (i : Nat) : Bool :=
  let onlyItself := info.mutation.isPure || info.mutation == Mutation.pure.alsoArg i
  !(info.noParameterLeak || onlyItself && !resultMayLeak c)

/-- Takes one argument from the stack. -/
def popArg (index : Nat) (c : Call) (info : MethodInfo) (i : Nat) (s : State) :
    Step (ValueId × State) := do
  let (v, s) ← pop index s
  let (s, v) ← if argMayLeak c info i then dropLocality s v else pure (s, v)
  let s ←
    if !info.mutation.isUnknown && info.mutation.mutatesArg i then
      checkMutable c.anchor false v s
    else pure s
  return (v, s)

/-- Takes the first `n` arguments from the stack, the last one first. -/
def popArgs (index : Nat) (c : Call) (info : MethodInfo) :
    Nat → State → List ValueId → Step (List ValueId × State)
  | 0, s, args => return (args, s)
  | n + 1, s, args => do
    let (v, s) ← popArg index c info n s
    popArgs index c info n s (v :: args)

/-- Whether the call may store its receiver somewhere. -/
def receiverMayLeak (a : Arena) (s : State) (c : Call) (info : MethodInfo) (args : List ValueId) :
    Bool :=
  info.mutation.isUnknown || resultMayLeak c ||
    args.zipIdx.any fun p => info.mutation.mutatesArg p.2 && (s.fact a p.1).mayLeak

/-- Takes the qualifier from the stack. -/
def popQualifier (index : Nat) (c : Call) (info : MethodInfo) (args : List ValueId) (s : State) :
    Step (ValueId × State) := do
  let (v, s) ← pop index s
  let s ←
    if info.explicitMutation && info.mutation.mutatesThis then checkMutable c.anchor true v s
    else pure s
  let a ← arena
  let bound := (s.fact a v).bound
  if !bound.isArray && (bound.isComparedByContent || receiverMayLeak a s c info args) then
    let (s, v) ← dropLocality s v
    return (v, s)
  else return (v, s)

/-- Takes what is given to the call from the stack. -/
def popCallArgs (index : Nat) (c : Call) (info : MethodInfo) (s : State) :
    Step (CallArgs × State) := do
  let (args, s) ← popArgs index c info c.argCount s []
  let (qualifier, s) ← popQualifier index c info args s
  return (⟨qualifier, args, info.mutation⟩, s)

/-! ## The usual result -/

/-- The fact on the result of a call as far as its declaration tells. -/
def declaredResult (c : Call) (info : MethodInfo) (t : TypeDesc) : Fact :=
  if t.isPrimitive then
    match Fact.ofType t .notNull, info.range with
    | .int declared, some r =>
      if (declared.meet r).isEmpty then .int declared else .int (declared.meet r)
    | f, _ => f
  else
    let f :=
      if c.isConstructor then Fact.ofExactType t .notNull
      else Fact.ofType t (info.returnNullness.getD .unknown)
    let f :=
      if c.isConstructor && info.mutation.isPure && !f.bound.isComparedByContent then
        f.meet .localObject
      else f
    match info.mutability with
    | some m => f.withMutability m
    | none => f

/-- The variable that a getter returns the value of. -/
def getterResult? (a : Arena) (c : Call) (info : MethodInfo) (qualifier : ValueId) :
    Option (ValueId × Arena) := do
  let d ← info.getter
  if a.isVariable qualifier then
    let inherent :=
      match c.returnType with
      | some t => Fact.ofType t (info.returnNullness.getD .unknown)
      | none => .top
    some (a.var d (some qualifier) inherent)
  else none

/-- The length boxed in the qualifier, if that is the one the call returns. -/
def unwrapped? (a : Arena) (info : MethodInfo) (qualifier : ValueId) : Option ValueId :=
  match a.get qualifier with
  | .wrapped l inner _ => if info.length = some l then some inner else none
  | _ => none

/-- The result that the declaration tells: a boxed length, the known result, a length,
the value of a getter, or a value of the declared type, in this order. -/
def declaredValue (a : Arena) (c : Call) (info : MethodInfo) (qualifier : ValueId) :
    ValueId × Arena :=
  match unwrapped? a info qualifier, info.precomputed, info.length,
      getterResult? a c info qualifier, c.returnType with
  | some inner, _, _, _, _ => (inner, a)
  | none, some f, _, _, _ => a.typed f
  | none, none, some l, _, _ => a.lengthOf l qualifier
  | none, none, none, some r, _ => r
  | none, none, none, none, some t => a.typed (declaredResult c info t)
  | none, none, none, none, none => (Arena.unknown, a)

/-- The result of a call unless a contract says otherwise: that of the rule for the
target, if there is one, and else what the declaration tells. -/
def usualResult (ctx : Context) (c : Call) (info : MethodInfo) (args : CallArgs) (s : State) :
    Step ValueId := do
  let a ← arena
  match (c.method.bind ctx.metadata.rule?).bind fun rule => rule args s a with
  | some (.value v) => return v
  | some (.typed f) => intern (·.typed f)
  | none => intern (declaredValue · c info args.qualifier)

/-! ## Contracts -/

/-- The states of a call while its contracts are expanded. -/
structure Expansion where
  /-- The states that have a result, with the result. -/
  finished : List (State × ValueId)
  /-- The states to which no contract applied so far. -/
  live : List State

/-- The condition of a contract in a call. -/
def contractCondition (args : CallArgs) (c : ContractCondition) : Step Condition := do
  let left ← intern (c.left.resolve args)
  let right ← intern (c.right.resolve args)
  condition left c.rel right

/-- The value that a contract returns in a call, unless the call fails. -/
def contractResult? (args : CallArgs) (r : ContractResult) : Step (Option ValueId) :=
  modifyGet fun σ =>
    let (v, a) := r.resolve? args σ.arena
    (v, { σ with arena := a })

/-- Assumes the conditions of a contract one after the other. For each one the state
in which it fails is left for the next contract, unless it is left already. -/
def splitByConditions (args : CallArgs) :
    List ContractCondition → State → List State → Step (Option State × List State)
  | [], s, left => return (some s, left)
  | c :: cs, s, left => do
    let cond ← contractCondition args c
    let a ← arena
    let failing := s.apply a cond.negated
    let left := if failing.feasible && !left.contains failing.state then left ++ [failing.state]
      else left
    let holding := s.apply a cond
    if holding.feasible then splitByConditions args cs holding.state left
    else return (none, left)

/-- Adds a state in which all conditions of a contract hold. -/
def finish (args : CallArgs) (r : ContractResult) (s : State) (finished : List (State × ValueId)) :
    Step (List (State × ValueId)) := do
  match ← contractResult? args r with
  | some v => return finished ++ [(s, v)]
  | none => return finished

/-- Applies one contract to states, the first one first. -/
def applyContract (args : CallArgs) (c : Contract) : List State → Expansion → Step Expansion
  | [], e => return e
  | s :: ss, e => do
    let (holding, left) ← splitByConditions args c.conditions s e.live
    let finished ←
      match holding with
      | some s => finish args c.result s e.finished
      | none => pure e.finished
    applyContract args c ss ⟨finished, left⟩

/-- Applies contracts one after the other; none if they make more states than allowed. -/
def applyContracts (args : CallArgs) (limit : Nat) :
    List Contract → Expansion → Step (Option Expansion)
  | [], e => return some e
  | c :: cs, e => do
    let e ← applyContract args c e.live { e with live := [] }
    if limit < e.live.length + e.finished.length then return none
    else applyContracts args limit cs e

/-- Every state after a call with its result. A constant result needs no contracts. -/
def expand (ctx : Context) (index : Nat) (info : MethodInfo) (args : CallArgs)
    (usual : ValueId) (s : State) : Step (List (State × ValueId)) := do
  if ((← arena).inherent usual).isConstant then return [(s, usual)]
  match ← applyContracts args ctx.config.contractLimit info.contracts ⟨[], [s]⟩ with
  -- a state with its result is explored once, however many contracts led to it
  | some e => return (e.finished ++ e.live.map (·, usual)).eraseDups
  | none =>
    log (.contractsTooComplex index)
    return [(s, usual)]

/-! ## After the call -/

/-- The state after the call has changed what it may change. -/
def flushAfterCall (a : Arena) (args : CallArgs) (s : State) : State :=
  if args.mutation.isUnknown then
    (args.qualifier :: args.args).foldl
      (fun s v =>
        if a.isVariable v && !(s.fact a v).isLocal then s.flushDependents a v else s)
      (s.flushFields a)
  else
    let s := if args.mutation.mutatesThis then s.flushDependents a args.qualifier else s
    args.args.zipIdx.foldl
      (fun s p => if args.mutation.mutatesArg p.2 then s.flushDependents a p.1 else s) s

/-- The item after a call has returned. -/
def returnFrom (index : Nat) (anchor : Option Anchor) (args : CallArgs) (r : State × ValueId) :
    Step Item := do
  let s := flushAfterCall (← arena) args r.1
  return next index (← pushResult anchor r.2 s)

/-- Performs a call. -/
def call (ctx : Context) (index : Nat) (c : Call) (s : State) : Step (List Item) := do
  let info := (c.method.bind ctx.metadata.info?).getD .unknown
  let (args, s) ← popCallArgs index c info s
  let usual ← usualResult ctx c info args s
  let results ← expand ctx index info args usual s
  results.mapM (returnFrom index c.anchor args)

end Pathwise.Step
