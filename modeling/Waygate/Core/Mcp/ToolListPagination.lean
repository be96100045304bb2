import Waygate.Core.Json
import Waygate.Core.Primitive

/-!
# Paging the Tool List

The pages of a tool list, from `waygate-mcp`. A tool and a principal are the JSON
objects they are serialized as. The hash and the sealing of cursors are parameters;
sealing draws a nonce and may fail.

## Main definitions

* `paginate`, `resumeCaptured`
* `CursorClaims`: What a cursor says.
* `CapturedViews`: The lists that are held.
* `store`: The lists after a run.
-/

namespace Waygate

namespace Mcp

def cursorMaxBytes : Nat := 320

def cursorLifetimeSeconds : Int := 5 * 60

def capturedViewRetentionSeconds : Int := 60

def capturedViewCapacity : Nat := 16

def saturate (n : Int) : Int :=
  max (-2 ^ 63) (min (2 ^ 63 - 1) n)

abbrev Tool := { j : Json // j.Numeric }

structure CursorClaims where
  kind : String
  exp : Int
  offset : Nat
  principal : String
  view : String
  deriving DecidableEq

/-- The hash, as hexadecimal text, and the sealing of cursors. What was sealed is
    what is opened, and a sealed cursor is never empty: it holds a nonce and a
    tag. -/
structure Crypto where
  blake3 : List UInt8 → String
  encrypt : List UInt8 → CursorClaims → Option String
  decrypt : String → Option CursorClaims
  decrypt_encrypt : ∀ nonce claims cursor, encrypt nonce claims = some cursor →
    decrypt cursor = some claims
  encrypt_ne_empty : ∀ nonce claims, encrypt nonce claims ≠ some ""

inductive McpError where
  | invalidParams (message : String)
  | internalError (message : String)
  deriving DecidableEq

inductive CursorRejection where
  | unreadable
  | expired
  | otherList
  | otherCaller
  | changedView
  | positionOutOfRange
  deriving DecidableEq

def invalidCursor (operation : String) : McpError :=
  .invalidParams ("invalid " ++ operation ++ " cursor; restart listing from the first page")

def cursorEncodingError : McpError :=
  .internalError "failed to bind the tools/list catalog view"

/-- The reason is logged and not returned. -/
def reject (operation : String) (_reason : CursorRejection) : McpError :=
  invalidCursor operation

structure ToolListPresentation where
  projection : String
  canonicalOrder : Bool
  schemaAdapted : Bool
  deriving DecidableEq

structure CapturedView where
  principal : String
  presentation : ToolListPresentation
  view : String
  capturedAt : Int
  tools : List Tool

def CapturedView.serves (held : CapturedView) (principal : String)
    (presentation : ToolListPresentation) (view : String) : Bool :=
  held.principal == principal && held.presentation == presentation && held.view == view

abbrev CapturedViews := List CapturedView

namespace CapturedViews

def fresh (now : Int) (held : CapturedView) : Bool :=
  decide (saturate (now - held.capturedAt) ≤ capturedViewRetentionSeconds)

/-- The oldest are dropped until there is room for one more. -/
def evict : CapturedViews → CapturedViews
  | [] => []
  | held :: rest =>
    if capturedViewCapacity ≤ (held :: rest).length then evict rest else held :: rest

def insert (entries : CapturedViews) (view : CapturedView) : CapturedViews :=
  evict (entries.filter (fun held => fresh view.capturedAt held
    && !held.serves view.principal view.presentation view.view)) ++ [view]

def get (entries : CapturedViews) (principal : String) (presentation : ToolListPresentation)
    (view : String) (now : Int) : Option (List Tool) × CapturedViews :=
  let held := entries.filter (fresh now)
  ((held.find? (fun held => held.serves principal presentation view)).map CapturedView.tools, held)

end CapturedViews

structure ToolListPage where
  tools : List Tool
  nextCursor : Option String

def cursorPrefix : String := "tl1"

def viewDomain : List UInt8 := asBytes "tool-list-view-v1" ++ [0]

def operation : String := "tools/list"

/-- `u64::to_be_bytes`. -/
def u64ToBeBytes (n : Nat) : List UInt8 :=
  (u64ToLeBytes n).reverse

def hashField (value : List UInt8) : List UInt8 :=
  u64ToBeBytes value.length ++ value

def principalBinding (cx : Crypto) (principal : Option Json) : String :=
  cx.blake3 (asBytes "tool-list-principal-v1" ++ [0] ++ match principal with
    | some principal => asBytes principal.toText
    | none => hashField (asBytes "disabled-auth"))

def catalogBinding (cx : Crypto) (items : List Tool) (domain : List UInt8) : String :=
  cx.blake3 (domain ++ hashField (u64ToBeBytes items.length)
    ++ items.flatMap (fun item => asBytes item.1.toText ++ [0]))

section Cursors

variable (cx : Crypto)

/-- Opening reads the clock itself, for the expiry. -/
def openSealed (cursor : String) (clock : Int) : Except CursorRejection CursorClaims :=
  if cursorMaxBytes < cursor.utf8ByteSize then .error .unreadable
  else match cx.decrypt cursor with
    | none => .error .unreadable
    | some claims => if claims.exp < clock then .error .expired else .ok claims

def encodeCursor (nonce : List UInt8) (offset : Nat) (expiresAt : Int) (principal view : String)
    (cursorKind : String) : Except McpError String :=
  if 2 ^ 64 ≤ offset then .error cursorEncodingError
  else match cx.encrypt nonce
      { kind := cursorKind
        exp := expiresAt
        offset := offset
        principal := principal
        view := view } with
    | some cursor => .ok cursor
    | none => .error cursorEncodingError

def openCursor (cursor : String) (clock : Int) (expectedPrincipal expectedKind : String)
    (operation : String) : Except McpError CursorClaims :=
  match openSealed cx cursor clock with
  | .error reason => .error (reject operation reason)
  | .ok claims =>
    if claims.kind ≠ expectedKind then .error (reject operation .otherList)
    else if claims.principal ≠ expectedPrincipal then .error (reject operation .otherCaller)
    else .ok claims

/-- A cursor is issued only when at least one later item exists. -/
def checkedOffset (offset itemCount : Nat) : Except CursorRejection Nat :=
  if offset = 0 ∨ itemCount ≤ offset then .error .positionOutOfRange else .ok offset

def decodeCursor (cursor : String) (clock : Int) (expectedPrincipal expectedView : String)
    (itemCount : Nat) (expectedKind operation : String) : Except McpError Nat :=
  match openCursor cx cursor clock expectedPrincipal expectedKind operation with
  | .error e => .error e
  | .ok claims =>
    if claims.view ≠ expectedView then .error (reject operation .changedView)
    else (checkedOffset claims.offset itemCount).mapError (reject operation)

/-- Where the page starts: at the first item when there is no cursor, or an empty
    one. -/
def pageStart (cursor : Option String) (clock : Int) (principal view : String) (itemCount : Nat) :
    Except McpError Nat :=
  match cursor with
  | none => .ok 0
  | some "" => .ok 0
  | some cursor => decodeCursor cx cursor clock principal view itemCount cursorPrefix operation

def toolPage (tools : List Tool) (start pageSize : Nat) (now : Int) (principalBinding view : String)
    (nonce : List UInt8) : Except McpError ToolListPage :=
  let stop := min (start + pageSize) tools.length
  let page := (tools.drop start).take (stop - start)
  if stop < tools.length then
    (encodeCursor cx nonce stop (saturate (now + cursorLifetimeSeconds)) principalBinding view
      cursorPrefix).map (fun cursor => { tools := page, nextCursor := some cursor })
  else .ok { tools := page, nextCursor := none }

/-- What a request comes with: the caller, how it is shown the list, the time,
    the clock of the sealing and the nonce for a cursor. -/
structure Caller where
  principal : Option Json
  presentation : ToolListPresentation
  now : Int
  clock : Int
  nonce : List UInt8

/-- A page of the list that was built for the request. A page that is not the
    last captures the list. -/
def paginate (pageSize : Nat) (caller : Caller) (tools : List Tool) (cursor : Option String)
    (entries : CapturedViews) : Except McpError ToolListPage × CapturedViews :=
  let binding := principalBinding cx caller.principal
  let view := catalogBinding cx tools viewDomain
  match pageStart cx cursor caller.clock binding view tools.length with
  | .error e => (.error e, entries)
  | .ok start =>
    match toolPage cx tools start pageSize caller.now binding view caller.nonce with
    | .error e => (.error e, entries)
    | .ok page =>
      (.ok page,
        if page.nextCursor.isSome then
          entries.insert
            { principal := binding
              presentation := caller.presentation
              view := view
              capturedAt := caller.now
              tools := tools }
        else entries)

/-- A page of the list that is held for the caller. None for a first page, and
    when no list is held. -/
def resumeCaptured (pageSize : Nat) (caller : Caller) (cursor : Option String)
    (entries : CapturedViews) : Except McpError (Option ToolListPage) × CapturedViews :=
  match cursor with
  | none => (.ok none, entries)
  | some "" => (.ok none, entries)
  | some cursor =>
    let binding := principalBinding cx caller.principal
    match openCursor cx cursor caller.clock binding cursorPrefix operation with
    | .error e => (.error e, entries)
    | .ok claims =>
      match entries.get binding caller.presentation claims.view caller.now with
      | (none, held) => (.ok none, held)
      | (some tools, held) =>
        match checkedOffset claims.offset tools.length with
        | .error reason => (.error (reject operation reason), held)
        | .ok start =>
          ((toolPage cx tools start pageSize caller.now binding claims.view
            caller.nonce).map some, held)

inductive Event where
  | paginate (caller : Caller) (tools : List Tool) (cursor : Option String)
  | resume (caller : Caller) (cursor : Option String)

def stepStore (pageSize : Nat) (entries : CapturedViews) : Event → CapturedViews
  | .paginate caller tools cursor => (paginate cx pageSize caller tools cursor entries).2
  | .resume caller cursor => (resumeCaptured cx pageSize caller cursor entries).2

def store (pageSize : Nat) (history : List Event) : CapturedViews :=
  history.foldl (stepStore cx pageSize) []

end Cursors

end Mcp

end Waygate
