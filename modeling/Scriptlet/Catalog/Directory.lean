import Scriptlet.Catalog.Basic

/-!
# Looking up in the catalog

A `Directory` is a catalog together with the namespaces that names may be
written with, and whether upper and lower case count. It answers which type a
text names (`Directory.resolve?`), what a type derives from
(`Directory.supertypes`), how far one type is from another
(`Directory.distance?`), and which members and methods a type has.

The supertypes of a type are found breadth first: all types reached are listed
once, in the order of how many steps they are away.
-/

namespace Scriptlet

open Text

/-- A catalog to look up in. -/
structure Directory where
  catalog : Catalog
  namespaces : List String := []
  ignoreCase : Bool := false

/-- A method with the type it was found on. -/
structure Candidate where
  method : Method
  owner : Ty

/-- A member with the type it was found on, and the type it has there. -/
structure MemberMatch where
  member : Member
  owner : Ty
  type : Ty

namespace Directory

variable (d : Directory)

/-! ## Names of types -/

/-- The part of a name behind its last point. -/
def shortName (name : String) : String :=
  String.ofList (name.toList.reverse.takeWhile (· != '.')).reverse

/-- A name without the first of the namespaces that stands before it. -/
def withoutNamespace (name : String) : String :=
  (d.namespaces.findSome? fun space => Catalog.withinNamespace? space name).getD name

/-- The type with a name, applied to arguments. -/
def instantiate? (name : String) (args : List Ty) : Option Ty :=
  let name := d.withoutNamespace name
  match shortName name, args with
  | "Func", _ :: _ => some (.function args.dropLast (args.getLastD .void))
  | "Action", _ => some (.function args .void)
  | "Nullable", [t] => some t.orNull
  | _, _ => (d.catalog.find? name args.length).map fun def' => def'.type.substitute (def'.bindings args)

/-- The number of characters in front of the bracket that is closed by the last
    character of a text. -/
def matchingOpen? (opening closing : Char) (s : List Char) : Option Nat :=
  go s.length 0 s.reverse
where
  /-- Walks back from the end, `depth` brackets deep. -/
  go : Nat → Nat → List Char → Option Nat
    | n + 1, depth, c :: cs =>
      if c = closing then go n (depth + 1) cs
      else if c = opening then
        if depth ≤ 1 then some n else go n (depth - 1) cs
      else go n depth cs
    | _, _, _ => none

/-- The parts of a text between commas that stand outside of brackets. -/
def splitArguments (s : List Char) : List (List Char) := (go 0 [] s).map trim
where
  /-- The parts, the first of which starts with the reverse of `part`. -/
  go (depth : Int) (part : List Char) : List Char → List (List Char)
    | [] => [part.reverse]
    | c :: cs =>
      if c = '<' ∨ c = '(' ∨ c = '[' then go (depth + 1) (c :: part) cs
      else if c = '>' ∨ c = ')' ∨ c = ']' then go (depth - 1) (c :: part) cs
      else if c = ',' ∧ depth = 0 then part.reverse :: go depth [] cs
      else go depth (c :: part) cs

/-- The type that a text names. Every step looks at a shorter text, so `steps` need
    not be more than there are characters, and one more. -/
def resolveWithin (d : Directory) : (steps : Nat) → List Char → Option Ty
  | 0, _ => none
  | steps + 1, text =>
    let text := trim text
    match text.getLast? with
    | none => none
    | some '?' => (resolveWithin d steps text.dropLast).map Ty.orNull
    | some ']' =>
      (matchingOpen? '[' ']' text).bind fun n =>
        let dims := (text.drop (n + 1)).dropLast
        if dims.all fun c => c == ',' || isBlank c then
          (resolveWithin d steps (text.take n)).map fun t =>
            .array t ((dims.filter (· == ',')).length + 1)
        else none
    | some '>' =>
      (matchingOpen? '<' '>' text).bind fun n =>
        ((splitArguments (text.drop (n + 1)).dropLast).mapM (resolveWithin d steps)).bind fun args =>
          d.instantiate? (String.ofList (trim (text.take n))) args
    | some _ => d.instantiate? (String.ofList text) []

/-- The type that a text names. -/
def resolve? (name : String) : Option Ty := d.resolveWithin (name.length + 1) name.toList

/-! ## The hierarchy -/

/-- The definition of a type, with its type parameters bound. -/
def definition? (t : Ty) : Option (Definition × Ty.Bindings) :=
  t.definitionName?.bind fun name =>
    (d.catalog.find? name t.definitionArgs.length).map fun def' =>
      (def', def'.bindings t.definitionArgs)

/-- The types that a type derives from directly. -/
def parents (t : Ty) : List Ty :=
  match t with
  | .void | .null | .generic _ | .object => []
  | .array element rank =>
    .named "Array" [] :: if rank = 1 then [.named "IEnumerable" [element]] else []
  | .function .. => [.object]
  | t =>
    match d.definition? t with
    | none => [.object]
    | some (def', b) =>
      match (def'.base.toList ++ def'.interfaces).map (·.substitute b) with
      | [] => [.object]
      | ps => ps

/-- Those of some types that are not among others yet, each once. -/
def fresh (seen : List (Ty × Nat)) (hops : Nat) : List Ty → List (Ty × Nat)
  | [] => []
  | t :: ts =>
    if seen.any fun s => s.1 == t then fresh seen hops ts
    else (t, hops) :: fresh (seen ++ [(t, hops)]) hops ts

/-- Goes on from the types in `queue`, all of them in `seen`, until none is left;
    `none` if that has no end. -/
def reach (d : Directory) (seen queue : List (Ty × Nat)) : Option (List (Ty × Nat)) :=
  match queue with
  | [] => some seen
  | (t, hops) :: queue =>
    let new := fresh seen (hops + 1) (d.parents t)
    d |>.reach (seen ++ new) (queue ++ new)
partial_fixpoint

/-- A type and all types it derives from, with the number of steps to each. -/
def supertypes (t : Ty) : List (Ty × Nat) := (d.reach [(t, 0)] [(t, 0)]).getD [(t, 0)]

/-- Whether a type is, or derives from, the definition with a name. -/
def derivesFrom (t : Ty) (name : String) : Bool :=
  (d.supertypes t).any fun s => s.1.definitionName? == some name

/-! ## Distance -/

/-- Whether a value of the first type becomes one of the second by widening. -/
def widens (s t : Ty) : Bool :=
  match s, t with
  | .numeric a, .numeric b => a != b && a.widensTo b
  | .char, .numeric b => b != .ushort && NumericKind.ushort.widensTo b
  | _, _ => false

/-- How far a value of the first type is from one of the second; `none` if it cannot
    be one. -/
def distance? (s t : Ty) : Option Nat :=
  if s = t then some 0
  else if t.containsGeneric || s = .void || t = .void then none
  else if s = .null then (if t.acceptsNull then some 1 else none)
  else
    match t with
    | .nullable inner =>
      if s.underlying = inner ∨ widens s.underlying inner then some 1 else none
    | _ =>
      if widens s t then some 1
      else ((d.supertypes s).find? fun u => u.1 == t).map (·.2)

/-! ## Members and methods -/

/-- Whether a name is the one that is looked for, exactly or up to case. -/
def nameMatches (exact : Bool) (found wanted : String) : Bool :=
  if exact then found == wanted else eqIgnoringCase found wanted

/-- The member with a name, of a type or one it derives from, exactly or up to
    case. -/
def memberBy? (exact : Bool) (t : Ty) (name : String) (isStatic : Bool) : Option MemberMatch :=
  (d.supertypes t).findSome? fun (owner, _) =>
    (d.definition? owner).bind fun (def', b) =>
      (def'.members.find? fun m => m.isStatic == isStatic && nameMatches exact m.name name).map
        fun m => ⟨m, owner, m.type.substitute b⟩

/-- The member with a name, of a type or one it derives from. -/
def member? (t : Ty) (name : String) (isStatic : Bool) : Option MemberMatch :=
  match d.memberBy? true t name isStatic with
  | some m => some m
  | none => if d.ignoreCase then d.memberBy? false t name isStatic else none

/-- The methods with a name, exactly or up to case. Static methods are not
    inherited. -/
def methodsBy (exact : Bool) (t : Ty) (name : String) (isStatic : Bool) : List Candidate :=
  let owners := if isStatic then [t] else (d.supertypes t).map (·.1)
  owners.flatMap fun owner =>
    match d.definition? owner with
    | none => []
    | some (def', _) =>
      (def'.methods.filter fun m =>
        m.isStatic == isStatic && nameMatches exact m.name name).map fun m => ⟨m, owner⟩

/-- The methods with a name. -/
def methods (t : Ty) (name : String) (isStatic : Bool) : List Candidate :=
  match d.methodsBy true t name isStatic with
  | [] => if d.ignoreCase then d.methodsBy false t name isStatic else []
  | cs => cs

/-- The methods with a name that are called on a value of a type, those of the type
    itself first. -/
def instanceMethods (t : Ty) (name : String) : List Candidate := d.methods t name false

/-- The methods with a name that are called on a type itself. -/
def staticMethods (t : Ty) (name : String) : List Candidate := d.methods t name true

/-- The extension methods with a name. -/
def extensionMethods (name : String) : List Candidate :=
  (d.catalog.extensionsNamed name).map fun m => ⟨m, m.owner⟩

/-- The constructors of a type. -/
def constructors (t : Ty) : List Candidate :=
  match d.definition? t with
  | none => []
  | some (def', _) => def'.constructors.map fun m => ⟨m, t⟩

end Directory

end Scriptlet
