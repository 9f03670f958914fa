import Mathlib.Data.List.Basic
import Mathlib.Data.Int.Notation
import PartCAD.Lib.Run

/-!
# Connections

A connection takes one message after the other, and answers those that carry an `id`.  The peer may
send any JSON value, and a handler may return or raise anything.

* `Object`, `Object.writable` : Python values, and those that can be written as a message;
* `check`, `dispatch` : the dispatcher;
* `take` : one turn of the loop of a connection, over a socket or over the standard streams;
* `Serves`, `manageable` : what a connection promises, and which messages it can keep it for;
* `serves_run`, `serves_step_iff` : what it keeps, and that it keeps no more.
-/

namespace PartCAD.Rpc

open PartCAD.Lib

/-! ## Values -/

/-- A Python string: code points, of which some may be surrogates. -/
abbrev PyStr := List ℕ

def lit (s : String) : PyStr := s.toList.map Char.toNat

/-- `s.encode("utf-8")` does not raise. -/
def encodable (s : PyStr) : Bool := s.all fun c => c < 0xD800 ∨ 0xDFFF < c

inductive Object (F : Type) where
  | none
  | bool (b : Bool)
  | int (n : ℤ)
  | float (x : F)
  | str (s : PyStr)
  | list (vs : List (Object F))
  | dict (items : List (PyStr × Object F))
  /-- What `json.dumps` refuses, such as bytes. -/
  | other

section

variable {F : Type}

namespace Object

mutual
/-- `write_message` does not raise. -/
def writable : Object F → Bool
  | .str s => encodable s
  | .list vs => writableList vs
  | .dict items => writableItems items
  | .other => false
  | _ => true
def writableList : List (Object F) → Bool
  | [] => true
  | v :: vs => v.writable && writableList vs
def writableItems : List (PyStr × Object F) → Bool
  | [] => true
  | (key, v) :: items => encodable key && v.writable && writableItems items
end

def isNone : Object F → Bool
  | .none => true
  | _ => false

/-- `isinstance(v, (dict, list))` -/
def isStructured : Object F → Bool
  | .list _ | .dict _ => true
  | _ => false

/-- `v.get(key)` where `v` is a dictionary -/
def get (v : Object F) (key : PyStr) : Option (Object F) :=
  match v with
  | .dict items => items.lookup key
  | _ => Option.none

/-- `v == s` -/
def isStr (v : Object F) (s : PyStr) : Bool :=
  match v with
  | .str t => t = s
  | _ => false

/-- `bool(v)` -/
def truthy (isZero : F → Bool) : Object F → Bool
  | .none => false
  | .bool b => b
  | .int n => n ≠ 0
  | .float x => !isZero x
  | .str s => !s.isEmpty
  | .list vs => !vs.isEmpty
  | .dict items => !items.isEmpty
  | .other => true

end Object

/-- The `id` of an object that carries one. -/
def idOf (request : Object F) : Option (Object F) := request.get (lit "id")

/-! ## The dispatcher -/

def invalidRequest : ℤ := -32600
def methodNotFound : ℤ := -32601
def invalidParams : ℤ := -32602
def internalError : ℤ := -32603

/-- What a handler does. -/
inductive Outcome (F : Type) where
  | result (v : Object F)
  | rpcError (code : ℤ) (message : PyStr) (data : Object F)
  /-- An `Exception`, with its text, its class and its traceback -/
  | exception (text name traceback : PyStr)
  /-- An exception that is no `Exception`, such as `SystemExit` -/
  | exit

/-- `JsonRpcError.to_object` -/
def toObject (code : ℤ) (message : PyStr) (data : Object F) : Object F :=
  .dict ([(lit "code", .int code), (lit "message", .str message)] ++
    if data.isNone then [] else [(lit "data", data)])

def response (id : Object F) (key : String) (payload : Object F) : Object F :=
  .dict [(lit "jsonrpc", .str (lit "2.0")), (lit "id", id), (lit key, payload)]

variable (registry : PyStr → Bool)

/-- The method that is called, or the error that is raised before. -/
def check (request : Object F) : Except (ℤ × PyStr) PyStr :=
  match request with
  | .dict items =>
    match items.lookup (lit "method") with
    | none => .error (invalidRequest, lit "Invalid Request")
    | some method =>
      if !(items.lookup (lit "jsonrpc")).any (·.isStr (lit "2.0")) then
        .error (invalidRequest, lit "Invalid Request: expected 'jsonrpc': '2.0'")
      else
        match method with
        | .str method =>
          if !(items.lookup (lit "params")).all (·.isStructured) then
            .error (invalidParams, lit "Invalid params: expected an object or an array")
          else if registry method then .ok method
          else .error (methodNotFound, lit "Method not found: " ++ method)
        | _ => .error (invalidRequest, lit "Invalid Request: 'method' must be a string")
  | _ => .error (invalidRequest, lit "Invalid Request")

/-- The member of a response for what a handler does; `none` where the exception goes through. -/
def Outcome.payload : Outcome F → Option (String × Object F)
  | .result v => some ("result", v)
  | .rpcError code message data => some ("error", toObject code message data)
  | .exception text name traceback =>
    some ("error", .dict [(lit "code", .int internalError),
      (lit "message", .str (if text = [] then name else text)),
      (lit "data", .dict [(lit "traceback", .str traceback)])])
  | .exit => none

/-- `dispatch`, where `none` is an exception that goes through it. -/
def dispatch (request : Object F) (outcome : Outcome F) : Option (Option (Object F)) :=
  let payload :=
    match check registry request with
    | .error (code, message) => some ("error", toObject code message .none)
    | .ok _ => outcome.payload
  payload.map fun (key, payload) => (idOf request).map fun id => response id key payload

/-! ## The loop -/

structure Connection (F : Type) where
  /-- There is a renderer. -/
  rendering : Bool
  /-- `self._stop`, which another connection may set. -/
  stop : Bool
  /-- The peer has closed the stream. -/
  eof : Bool
  /-- The loop has been left, and the connection is closed. -/
  closed : Bool
  /-- The messages that were taken, and the responses that were written -/
  received : List (Object F)
  sent : List (Object F)

inductive Event (F : Type) where
  /-- A message, which is `none` where `json.loads` raises, and what its handler would do. -/
  | message (request : Option (Object F)) (outcome : Outcome F)
  | eof
  /-- `daemon.stop` of another connection -/
  | stop

/-- `write_message`; an exception leaves the loop. -/
def send (c : Connection F) (response : Object F) : Connection F :=
  if response.writable then { c with sent := c.sent ++ [response] } else { c with closed := true }

/-- A response to a message that carries an `id` -/
def respond (c : Connection F) (request : Object F) (key : String) (payload : Object F) : Connection F :=
  match idOf request with
  | none => c
  | some id => send c (response id key payload)

def isMethod (request : Object F) (method : String) : Bool :=
  (request.get (lit "method")).any (·.isStr (lit method))

variable (isZero : F → Bool)

def logMode (c : Connection F) (request : Object F) : Connection F :=
  match (request.get (lit "params")).getD .none with
  | .none => turn c .none
  | .dict items => turn c ((items.lookup (lit "ansi")).getD .none)
  | _ => respond c request "error" (toObject invalidParams (lit "Invalid params: expected an object") .none)
where
  turn (c : Connection F) (ansi : Object F) : Connection F :=
    let wantsAnsi := ansi.truthy isZero
    let c :=
      if wantsAnsi && !c.rendering then { c with rendering := true }
      else if !wantsAnsi && c.rendering then { c with rendering := false }
      else c
    respond c request "result" (.dict [(lit "ansi", .bool c.rendering)])

/-- One message.  Only the daemon takes `daemon.stop` for itself. -/
def take (daemon : Bool) (c : Connection F) (request : Object F) (outcome : Outcome F) : Connection F :=
  if request.isNone then { c with closed := true }
  else if daemon && isMethod request "daemon.stop" then
    let c := respond c request "result" (.dict [(lit "stopped", .bool true)])
    if c.closed then c else { c with stop := true, closed := true }
  else if isMethod request "log.mode" then logMode isZero c request
  else
    match dispatch registry request outcome with
    | none => { c with closed := true }
    | some none => c
    | some (some response) => send c response

/-- One turn of the loop. -/
def step (daemon : Bool) (c : Connection F) (e : Event F) : Option (Connection F) :=
  if c.closed then none
  else
    match e with
    | .eof => some { c with eof := true, closed := true }
    | .stop => if daemon then some { c with stop := true } else none
    | .message none _ => some { c with closed := true }
    | .message (some request) outcome =>
      let c := take registry isZero daemon { c with received := c.received ++ [request] } request outcome
      some { c with closed := c.closed || c.stop }

def connection (daemon : Bool) : System (Connection F) (Event F) where
  init := ⟨false, false, false, false, [], []⟩
  step := step registry isZero daemon

/-- `_handle_connection` of the socket server -/
def handleConnection : System (Connection F) (Event F) := connection registry isZero true

/-- `serve` over the standard streams -/
def serve : System (Connection F) (Event F) := connection registry isZero false

/-! ## What is promised -/

def ids (c : Connection F) : List (Option (Object F)) := c.sent.map fun r => r.get (lit "id")

/-- **What a connection promises**: one response for every message that carried an `id`, in their
order, and to go on until the peer closes the stream or `daemon.stop` is called. -/
structure Serves (c : Connection F) : Prop where
  answers : ids c = (c.received.filterMap idOf).map some
  stays : c.closed → c.eof ∨ c.stop

/-- What a handler returns or raises can be written. -/
def Outcome.writable : Outcome F → Bool
  | .result v => v.writable
  | .rpcError _ message data => encodable message && data.writable
  | .exception text name traceback =>
    encodable (if text = [] then name else text) && encodable traceback
  | .exit => false

def Outcome.isExit : Outcome F → Bool
  | .exit => true
  | _ => false

/-- The dispatcher comes back, and what it answers to an `id` can be written. -/
def answerable (request : Object F) (outcome : Outcome F) : Bool :=
  match check registry request with
  | .error (_, message) => (idOf request).isNone || encodable message
  | .ok _ => if (idOf request).isSome then outcome.writable else !outcome.isExit

/-- **The messages that a connection can keep its promise for.** -/
def manageable (daemon : Bool) (request : Object F) (outcome : Outcome F) : Bool :=
  !request.isNone && (idOf request).all (·.writable) &&
    (daemon && isMethod request "daemon.stop" || isMethod request "log.mode" ||
      answerable registry request outcome)

/-- The condition on what happens to a connection. -/
def careful (daemon : Bool) : Event F → Bool
  | .message none _ => false
  | .message (some request) outcome => manageable registry daemon request outcome
  | _ => true

/-! ## Responses -/

theorem encodable_lit (s : String) : encodable (lit s) = true := by
  unfold encodable lit
  rw [List.all_map, List.all_eq_true]
  intro c _
  rcases c.valid with h | h
  · exact decide_eq_true (Or.inl h)
  · exact decide_eq_true (Or.inr h.1)

theorem writable_response (id : Object F) (key : String) (payload : Object F) :
    (response id key payload).writable = (id.writable && payload.writable) := by
  simp [response, Object.writable, Object.writableItems, encodable_lit]

theorem writable_toObject (code : ℤ) (message : PyStr) (data : Object F) :
    (toObject code message data).writable = (encodable message && data.writable) := by
  unfold toObject
  cases data <;> simp [Object.isNone, Object.writable, Object.writableItems, encodable_lit]

theorem get_response (id : Object F) (key : String) (payload : Object F) :
    (response id key payload).get (lit "id") = some id := by
  rfl

/-- What a message has done to a connection that has kept its promise for it. -/
structure Answered (c c' : Connection F) (request : Object F) : Prop where
  ids : ids c' = ids c ++ ((idOf request).map some).toList
  received : c'.received = c.received
  eof : c'.eof = c.eof
  closed : c'.closed → c.closed ∨ c'.stop

/-- What a message has done to a connection that it has ended. -/
structure Broken (c c' : Connection F) : Prop where
  eof : c'.eof = c.eof
  stop : c'.stop = c.stop
  closed : c'.closed = true

theorem Broken.refl (c : Connection F) : Broken c { c with closed := true } := ⟨rfl, rfl, rfl⟩

/-- **A response** is written if both its parts can be. -/
theorem answered_respond {c : Connection F} {request payload : Object F} (key : String)
    (hid : (idOf request).all (·.writable)) (hpayload : (idOf request).isSome → payload.writable) :
    Answered c (respond c request key payload) request := by
  unfold respond
  cases hrequest : idOf request with
  | none => exact ⟨by simp [hrequest], rfl, rfl, Or.inl⟩
  | some id =>
    rw [hrequest] at hid hpayload
    have hwritable : (response id key payload).writable = true := by
      rw [writable_response, Bool.and_eq_true]
      exact ⟨hid, hpayload rfl⟩
    dsimp only
    rw [send, if_pos hwritable]
    refine ⟨?_, rfl, rfl, Or.inl⟩
    simp [ids, get_response, hrequest]

theorem broken_respond {c : Connection F} {request payload : Object F} (key : String)
    (h : (idOf request).all (fun id => id.writable && payload.writable) = false) :
    Broken c (respond c request key payload) := by
  obtain ⟨id, hrequest⟩ : ∃ id, idOf request = some id := by
    cases hrequest : idOf request with
    | none => exact absurd h (by simp [hrequest])
    | some id => exact ⟨id, rfl⟩
  replace h : (id.writable && payload.writable) = false := by rw [hrequest] at h; exact h
  unfold respond
  rw [hrequest]
  dsimp only
  rw [send, if_neg (by rw [writable_response, h]; exact Bool.false_ne_true)]
  exact Broken.refl c

/-! ## One message -/

variable {registry isZero}

theorem answered_logMode {c : Connection F} {request : Object F}
    (hid : (idOf request).all (·.writable)) : Answered c (logMode isZero c request) request := by
  have hmode : ∀ b : Bool, Answered c (respond { c with rendering := b } request "result"
      (.dict [(lit "ansi", .bool b)])) request := by
    intro b
    have hwritable : (.dict [(lit "ansi", .bool b)] : Object F).writable = true := by
      simp [Object.writable, Object.writableItems, encodable_lit]
    have h := answered_respond "result" (c := { c with rendering := b }) hid fun _ => hwritable
    exact ⟨h.ids, h.received, h.eof, h.closed⟩
  have hturn : ∀ ansi : Object F, Answered c (logMode.turn isZero request c ansi) request := by
    intro ansi
    unfold logMode.turn
    dsimp only
    split
    · exact hmode true
    split
    · exact hmode false
    · exact hmode c.rendering
  unfold logMode
  split
  · exact hturn _
  · exact hturn _
  · refine answered_respond _ hid fun _ => ?_
    rw [writable_toObject, encodable_lit]
    rfl

theorem writable_payload {outcome : Outcome F} {key : String} {payload : Object F}
    (h : outcome.payload = some (key, payload)) : payload.writable = outcome.writable := by
  cases outcome with
  | result v =>
    obtain ⟨rfl, rfl⟩ := Prod.mk.inj (Option.some.inj h)
    rfl
  | rpcError code message data =>
    obtain ⟨rfl, rfl⟩ := Prod.mk.inj (Option.some.inj h)
    exact writable_toObject code message data
  | exception text name traceback =>
    obtain ⟨rfl, rfl⟩ := Prod.mk.inj (Option.some.inj h)
    simp [Outcome.writable, Object.writable, Object.writableItems, encodable_lit]
  | exit => cases h

/-- The part of a message that is neither `daemon.stop` nor `log.mode`. -/
def dispatched (registry : PyStr → Bool) (c : Connection F) (request : Object F) (outcome : Outcome F) :
    Connection F :=
  match dispatch registry request outcome with
  | none => { c with closed := true }
  | some none => c
  | some (some response) => send c response

/-- With something to answer, the dispatcher's answer is a response. -/
theorem dispatched_eq {c : Connection F} {request payload : Object F} {outcome : Outcome F} {key : String}
    (h : (match check registry request with
      | .error (code, message) => some ("error", toObject code message .none)
      | .ok _ => outcome.payload) = some (key, payload)) :
    dispatched registry c request outcome = respond c request key payload := by
  unfold dispatched dispatch respond
  dsimp only
  rw [h]
  cases idOf request with
  | none => rfl
  | some id => rfl

theorem answered_dispatched {c : Connection F} {request : Object F} {outcome : Outcome F}
    (hid : (idOf request).all (·.writable)) (h : answerable registry request outcome) :
    Answered c (dispatched registry c request outcome) request := by
  unfold answerable at h
  cases hcheck : check registry request with
  | error e =>
    obtain ⟨code, message⟩ := e
    rw [hcheck] at h
    rw [dispatched_eq (by rw [hcheck])]
    refine answered_respond _ hid fun hsome => ?_
    have hmessage : encodable message = true := by
      obtain ⟨id, hrequest⟩ := Option.isSome_iff_exists.1 hsome
      simpa [hrequest] using h
    rw [writable_toObject, hmessage]
    rfl
  | ok method =>
    rw [hcheck] at h
    dsimp only at h
    cases hpayload : outcome.payload with
    | some p =>
      obtain ⟨key, payload⟩ := p
      rw [dispatched_eq (by rw [hcheck]; exact hpayload)]
      refine answered_respond _ hid fun hsome => ?_
      rw [if_pos hsome] at h
      rw [writable_payload hpayload, h]
    | none =>
      cases outcome with
      | exit => exact absurd h (by simp [Outcome.writable, Outcome.isExit])
      | _ => cases hpayload

theorem broken_dispatched {c : Connection F} {request : Object F} {outcome : Outcome F}
    (h : ((idOf request).all (·.writable) && answerable registry request outcome) = false) :
    Broken c (dispatched registry c request outcome) := by
  unfold answerable at h
  cases hcheck : check registry request with
  | error e =>
    obtain ⟨code, message⟩ := e
    rw [hcheck] at h
    rw [dispatched_eq (by rw [hcheck])]
    apply broken_respond
    cases hrequest : idOf request with
    | none => exact absurd h (by simp [hrequest])
    | some id => simpa [hrequest, writable_toObject, Object.writable] using h
  | ok method =>
    rw [hcheck] at h
    dsimp only at h
    cases hpayload : outcome.payload with
    | some p =>
      obtain ⟨key, payload⟩ := p
      rw [dispatched_eq (by rw [hcheck]; exact hpayload)]
      apply broken_respond
      cases hrequest : idOf request with
      | none =>
        cases outcome with
        | exit => cases hpayload
        | _ => exact absurd h (by simp [hrequest, Outcome.isExit])
      | some id => simpa [hrequest, writable_payload hpayload] using h
    | none =>
      unfold dispatched dispatch
      dsimp only
      rw [hcheck]
      dsimp only
      rw [hpayload]
      exact Broken.refl c

theorem take_eq {daemon : Bool} {c : Connection F} {request : Object F} {outcome : Outcome F}
    (hnone : request.isNone = false) (hstop : (daemon && isMethod request "daemon.stop") = false)
    (hmode : isMethod request "log.mode" = false) :
    take registry isZero daemon c request outcome = dispatched registry c request outcome := by
  rw [take, hnone, hstop, hmode]
  rfl

/-- A manageable message is answered. -/
theorem answered_take (isZero : F → Bool) {daemon : Bool} {c : Connection F} {request : Object F} {outcome : Outcome F}
    (h : manageable registry daemon request outcome) :
    Answered c (take registry isZero daemon c request outcome) request := by
  unfold manageable at h
  simp only [Bool.and_eq_true, Bool.not_eq_true'] at h
  obtain ⟨⟨hnone, hid⟩, hkind⟩ := h
  cases hstop : daemon && isMethod request "daemon.stop" with
  | true =>
    have hpayload : (.dict [(lit "stopped", .bool true)] : Object F).writable = true := by
      simp [Object.writable, Object.writableItems, encodable_lit]
    have hanswered := answered_respond "result" (c := c) hid fun _ => hpayload
    rw [take, hnone, hstop]
    dsimp only
    rw [if_neg Bool.false_ne_true, if_pos rfl]
    split
    · exact hanswered
    · exact ⟨hanswered.ids, hanswered.received, hanswered.eof, fun _ => Or.inr rfl⟩
  | false =>
    cases hmode : isMethod request "log.mode" with
    | true =>
      rw [take, hnone, hstop, hmode]
      exact answered_logMode hid
    | false =>
      rw [take_eq hnone hstop hmode]
      rw [hstop, hmode] at hkind
      exact answered_dispatched hid hkind

theorem broken_logMode {c : Connection F} {request : Object F}
    (hid : (idOf request).all (·.writable) = false) : Broken c (logMode isZero c request) := by
  have hrespond : ∀ (b : Bool) (key : String) (payload : Object F),
      Broken c (respond { c with rendering := b } request key payload) := by
    intro b key payload
    have hall : (idOf request).all (fun id => id.writable && payload.writable) = false := by
      cases hrequest : idOf request with
      | none => exact absurd hid (by simp [hrequest])
      | some id => simp_all
    have h := broken_respond key (c := { c with rendering := b }) hall
    exact ⟨h.eof, h.stop, h.closed⟩
  have hturn : ∀ ansi : Object F, Broken c (logMode.turn isZero request c ansi) := by
    intro ansi
    unfold logMode.turn
    dsimp only
    split
    · exact hrespond true _ _
    split
    · exact hrespond false _ _
    · exact hrespond c.rendering _ _
  unfold logMode
  split
  · exact hturn _
  · exact hturn _
  · exact hrespond c.rendering _ _

/-- Any other message ends the connection. -/
theorem broken_take (isZero : F → Bool) {daemon : Bool} {c : Connection F} {request : Object F} {outcome : Outcome F}
    (h : manageable registry daemon request outcome = false) :
    Broken c (take registry isZero daemon c request outcome) := by
  cases hnone : request.isNone with
  | true =>
    rw [take, hnone]
    exact Broken.refl c
  | false =>
    cases hid : (idOf request).all (·.writable) with
    | false =>
      cases hstop : daemon && isMethod request "daemon.stop" with
      | true =>
        have hpayload : (idOf request).all (fun id => id.writable &&
            (.dict [(lit "stopped", .bool true)] : Object F).writable) = false := by
          cases hrequest : idOf request with
          | none => exact absurd hid (by simp [hrequest])
          | some id => simp_all
        have hbroken := broken_respond "result" (c := c) hpayload
        rw [take, hnone, hstop]
        dsimp only
        rw [if_neg Bool.false_ne_true, if_pos rfl, if_pos hbroken.closed]
        exact hbroken
      | false =>
        cases hmode : isMethod request "log.mode" with
        | true =>
          rw [take, hnone, hstop, hmode]
          exact broken_logMode hid
        | false =>
          rw [take_eq hnone hstop hmode]
          exact broken_dispatched (by rw [hid]; rfl)
    | true =>
      unfold manageable at h
      rw [hnone, hid] at h
      simp only [Bool.not_false, Bool.true_and, Bool.or_eq_false_iff] at h
      rw [take_eq hnone h.1.1 h.1.2]
      exact broken_dispatched (by rw [hid, h.2]; rfl)

/-! ## Runs -/

/-- What is so as long as every message was manageable. -/
structure Inv (c : Connection F) : Prop extends Serves c where
  eof : c.eof → c.closed

variable {daemon : Bool}

theorem inv_step {c c' : Connection F} {e : Event F} (h : Inv c) (hcareful : careful registry daemon e)
    (hstep : step registry isZero daemon c e = some c') : Inv c' := by
  unfold step at hstep
  obtain ⟨hclosed, hstep⟩ := Option.ite_none_left_eq_some.1 hstep
  cases e with
  | eof =>
    obtain rfl := Option.some.inj hstep
    exact ⟨⟨h.answers, fun _ => Or.inl rfl⟩, fun _ => rfl⟩
  | stop =>
    obtain ⟨-, hstep⟩ := Option.ite_none_right_eq_some.1 hstep
    obtain rfl := Option.some.inj hstep
    exact ⟨⟨h.answers, fun _ => Or.inr rfl⟩, h.eof⟩
  | message request outcome =>
    cases request with
    | none => exact absurd hcareful Bool.false_ne_true
    | some request =>
      obtain rfl := Option.some.inj hstep
      have hanswered := answered_take isZero
        (c := { c with received := c.received ++ [request] }) hcareful
      refine ⟨⟨?_, fun hclosed' => ?_⟩, fun heof => ?_⟩
      · refine hanswered.ids.trans ?_
        change ids c ++ _ = List.map some (List.filterMap idOf (Connection.received _))
        rw [hanswered.received, h.answers]
        cases hrequest : idOf request with
        | none => simp [hrequest]
        | some id => simp [hrequest]
      · rcases Bool.or_eq_true_iff.1 hclosed' with hclosed' | hstop
        · exact Or.inr ((hanswered.closed hclosed').resolve_left hclosed)
        · exact Or.inr hstop
      · have heof' : c.eof = true := hanswered.eof.symm.trans heof
        exact absurd (h.eof heof') hclosed

/-- **A connection keeps its promise** whatever the order of the messages, if each is manageable. -/
theorem serves_run {c : Connection F}
    (h : Run (connection registry isZero daemon) (fun _ e => careful registry daemon e) c) : Serves c := by
  have hinv : Inv c := by
    refine Run.invariant (P := Inv) ?_ (fun _ _ _ hinv hok hstep => inv_step hinv hok hstep) h
    exact ⟨⟨rfl, fun hclosed => absurd hclosed Bool.false_ne_true⟩,
      fun heof => absurd heof Bool.false_ne_true⟩
  exact hinv.toServes

/-- **The condition is exact**: no other message leaves the promise kept. -/
theorem serves_step_iff {c c' : Connection F} {request : Option (Object F)} {outcome : Outcome F}
    (h : Inv c) (hstop : c.stop = false)
    (hstep : step registry isZero daemon c (.message request outcome) = some c') :
    Serves c' ↔ careful registry daemon (.message request outcome) := by
  constructor
  · intro hserves
    unfold step at hstep
    obtain ⟨hclosed, hstep⟩ := Option.ite_none_left_eq_some.1 hstep
    have hopen : c.eof = false := Bool.eq_false_iff.2 fun heof => hclosed (h.eof heof)
    have hnot : ¬ (c'.closed = true ∧ c'.eof = c.eof ∧ c'.stop = c.stop) := by
      rintro ⟨hclosed', heof, hstop'⟩
      rw [hopen] at heof
      rw [hstop] at hstop'
      exact absurd (hserves.stays hclosed') (by simp [heof, hstop'])
    cases request with
    | none =>
      obtain rfl := Option.some.inj hstep
      exact absurd ⟨rfl, rfl, rfl⟩ hnot
    | some request =>
      obtain rfl := Option.some.inj hstep
      refine eq_true_of_ne_false fun hmanageable => hnot ?_
      have hbroken := broken_take isZero
        (c := { c with received := c.received ++ [request] }) hmanageable
      exact ⟨by simp [hbroken.closed], hbroken.eof, hbroken.stop⟩
  · intro hcareful
    exact (inv_step h hcareful hstep).toServes

end

/-- A request that calls a method. -/
def call (id : Object Unit) (method : String) : Object Unit :=
  .dict [(lit "jsonrpc", .str (lit "2.0")), (lit "id", id), (lit "method", .str (lit method))]

/-- Two requests, with an array and a handler that raises. -/
theorem serves_twoRequests : ∃ c : Connection Unit, ids c = [some (.int 1), some (.str (lit "b"))] ∧
    c.closed = false ∧ Serves c := by
  have hs : (handleConnection (fun _ => true) (fun _ : Unit => true)).after
      (fun _ e => careful (fun _ => true) true e)
      [.message (some (call (.int 1) "a")) (.result (.list [])), .message (some (.list [])) .exit,
        .message (some (call (.str (lit "b")) "a")) (.exception (lit "x") [] [])] =
      some ⟨false, false, false, false, [call (.int 1) "a", .list [], call (.str (lit "b")) "a"],
        [response (.int 1) "result" (.list []), response (.str (lit "b")) "error"
          (.dict [(lit "code", .int internalError), (lit "message", .str (lit "x")),
            (lit "data", .dict [(lit "traceback", .str [])])])]⟩ := rfl
  exact ⟨_, rfl, rfl, serves_run (run_after hs)⟩

/-- The message `null` is taken for the end of the stream. -/
theorem not_serves_null :
    ¬ ∀ c, Run (handleConnection (fun _ => true) (fun _ : Unit => true)) (fun _ _ => True) c →
      Serves c := by
  intro h
  have hs : (handleConnection (fun _ => true) (fun _ : Unit => true)).after (fun _ _ => True)
      [.message (some .none) .exit] = some ⟨false, false, false, true, [.none], []⟩ := rfl
  have hstays := (h _ (run_after hs)).stays rfl
  exact absurd hstays (by simp)

end PartCAD.Rpc
