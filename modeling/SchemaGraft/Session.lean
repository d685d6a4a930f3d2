import SchemaGraft.BuiltIn
import SchemaGraft.Schema.Comparison
import SchemaGraft.Schema.Edit
import SchemaGraft.Schema.Print

/-!
# Sessions

In a session schemas are kept under names of the user's choice. Each is a handle: the same schema
may be kept under several names, and an extension that changes nothing gives back the very handle it
was given.

A session hands out the numbers that tell files, runs and handles apart. It also remembers which
resolver a label stands for.
-/

set_option autoImplicit false

namespace SchemaGraft

/-- A schema with a number that tells it apart from equal ones. -/
structure SchemaHandle where
  serial : Nat
  schema : Schema

/-- Whether two handles are one. -/
def SchemaHandle.isSame (left right : SchemaHandle) : Bool := left.serial == right.serial

/-- What a session keeps. -/
structure Session where
  schemas : List (String × SchemaHandle)
  /-- The resolvers that labels stand for. -/
  labels : List (String × Resolver)
  /-- The next number that was not handed out yet. -/
  next : Nat

/-- An extension of a schema, as users ask for it. -/
structure ExtensionRequest where
  base : SchemaHandle
  /-- The document, or none for one without definitions. -/
  source : Option SourceFile
  /-- The types and fields that get resolvers, and the labels of these. -/
  fieldResolvers : List (Name × Name × String)
  /-- The label of the resolver of all other fields. -/
  fallbackResolver : Option String
  /-- Whether each mention of a label stands for a resolver of its own. -/
  freshResolvers : Bool
  /-- Whether a document with mistakes is used as far as it could be read. -/
  acceptsMistakes : Bool

/-- What came of an extension that users asked for. -/
inductive ExtensionAnswer where
  /-- The document has mistakes. -/
  | unreadable (parsed : ParsedDocument)
  | rejected (document : Document) (rejection : Rejection) (events : List Event)
  | extended (handle : SchemaHandle) (events : List Event)

namespace Session

/-- The session without schemas. -/
def start : Session := ⟨[], [], 1⟩

/-- A number that was not handed out before. -/
def fresh (session : Session) : Nat × Session :=
  (session.next, { session with next := session.next + 1 })

/-- The schema that is kept under a name. -/
def get? (session : Session) (name : String) : Option SchemaHandle := session.schemas.lookup name

/-- Keeps a schema under a name, if one is given. -/
def put (session : Session) (name : Option String) (handle : SchemaHandle) : Session :=
  match name with
  | some name => { session with schemas := (name, handle) :: session.schemas }
  | none => session

/-- A handle of its own for a schema. -/
def handle (session : Session) (schema : Schema) : SchemaHandle × Session :=
  let (serial, session) := session.fresh
  (⟨serial, schema⟩, session)

/-- The resolver that a label stands for, or a new one. -/
def resolver (session : Session) (isFresh : Bool) (label : String) : Resolver × Session :=
  match if isFresh then none else session.labels.lookup label with
  | some resolver => (resolver, session)
  | none =>
    let (handle, session) := session.fresh
    let resolver : Resolver := ⟨handle, label⟩
    (resolver,
      if isFresh then session else { session with labels := (label, resolver) :: session.labels })

/-- Assigns the resolvers of fields, one after the other. -/
def assignFields (session : Session) (isFresh : Bool) (assignment : ResolverAssignment) :
    List (Name × Name × String) → ResolverAssignment × Session
  | [] => (assignment, session)
  | (type, field, label) :: rest =>
    let (resolver, session) := session.resolver isFresh label
    session.assignFields isFresh (assignment.assign type field resolver) rest

/-- Assigns the resolvers that a request asks for. -/
def assign (session : Session) (request : ExtensionRequest) : ResolverAssignment × Session :=
  let (assignment, session) :=
    session.assignFields request.freshResolvers .none request.fieldResolvers
  match request.fallbackResolver with
  | none => (assignment, session)
  | some label =>
    let (resolver, session) := session.resolver request.freshResolvers label
    (assignment.withFallback resolver, session)

/-- Reads the document of a request. -/
def read (session : Session) (request : ExtensionRequest) : Option ParsedDocument × Session :=
  match request.source with
  | none => (none, session)
  | some source =>
    let (serial, session) := session.fresh
    (some (Document.parse {} (.document serial) source), session)

/-- Extends a schema. -/
def extend (session : Session) (request : ExtensionRequest) : ExtensionAnswer × Session :=
  let (parsed, session) := session.read request
  match parsed.filter fun parsed => !parsed.isValid && !request.acceptsMistakes with
  | some parsed => (.unreadable parsed, session)
  | none =>
    let document := parsed.elim Document.empty (·.document)
    let (resolvers, session) := session.assign request
    let (number, session) := session.fresh
    let outcome := Schema.extend ⟨number, resolvers⟩ request.base.schema document
    let events := parsed.elim [] (fun parsed => [parsed.event]) ++ outcome.events
    match outcome.result with
    | .error rejection => (.rejected document rejection events, session)
    | .ok .unchanged => (.extended request.base events, session)
    | .ok (.changed schema) =>
      let (handle, session) := session.handle schema
      (.extended handle events, session)

/-- Changes one thing in a schema. -/
def edit (session : Session) (schema : Schema) (edit : SchemaEdit) :
    Except EditProblem (SchemaHandle × Session) := do
  let (run, session) := session.fresh
  let changed ← schema.edit run edit
  return session.handle changed

end Session

end SchemaGraft
