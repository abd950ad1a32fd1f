import Hde.Page
import Hde.Tasks
import Mathlib.Data.List.Infix

/-!
The sign-in server: the handlers of its requests, with the tasks that they start. A
handler runs up to its first `bcrypt` or database call; the hashing, the comparing and
the statements run elsewhere, in any order, and their callbacks after them, so that the
tables may change between any two steps of one request.
-/
namespace Hde.Accounts
open Hde.Text Hde.JsonText Hde.Page Hde.Tasks

/-! ### Requests -/

/-- `{ username, passphrase, role, status }`, or the same with `password`. -/
structure NewUser where
  username : Option Json
  passphrase : Option Json
  role : Option Json
  status : Option Json

structure Login where
  username : Option Json
  passphrase : Option Json
  ip : Option Str
  userAgent : Str

inductive Request
  | register (user : NewUser)
  | login (login : Login)
  | logout
  | listUsers
  | addUser (user : NewUser)
  | deleteUser (id : Str)

/-- A request and its place among the requests: what a handler answers. -/
structure Call where
  number : Nat
  request : Request

/-- What is known of the client: its address as the framework, a proxy's header and the
    socket give it, and the `user-agent` header. -/
structure Client where
  ip : Option Str
  forwardedFor : Option Str
  remoteAddress : Option Str
  userAgent : Option Str

/-- `a || b`. -/
def orText (first second : Option Str) : Option Str := if first = none ∨ first = some [] then second else first

/-- A default of a destructured field. -/
def orDefault (value : Option Json) (other : Str) : Option Json := some (value.getD (.str other))

def registerRequest (body : List (Str × Json)) : Request :=
  .register {
    username := Json.member body (lit "username")
    passphrase := Json.member body (lit "passphrase")
    role := Json.member body (lit "role")
    status := Json.member body (lit "status") }

def loginRequest (body : List (Str × Json)) (client : Client) : Request :=
  .login {
    username := Json.member body (lit "username")
    passphrase := Json.member body (lit "passphrase")
    ip := orText client.ip (orText client.forwardedFor client.remoteAddress)
    userAgent := (orText client.userAgent (some (lit "Unknown"))).getD [] }

def addUserRequest (body : List (Str × Json)) : Request :=
  .addUser {
    username := Json.member body (lit "username")
    passphrase := Json.member body (lit "password")
    role := orDefault (Json.member body (lit "role")) (lit "user")
    status := orDefault (Json.member body (lit "status")) (lit "active") }

inductive Cookie
  | loggedIn
  | cleared
deriving DecidableEq

structure Response where
  status : Nat
  body : Json
  cookie : Option Cookie := none

/-! ### The database -/

structure Row where
  uid : Int
  username : Json
  passphrase : Json
  role : Json
  status : Json
  loginTimestamp : Json
  deviceInfo : Json

structure Attempt where
  uid : Option Int
  username : Option Json
  success : Bool
  ip : Option Str
  userAgent : Str

inductive Column
  | uid
  | username
  | passphrase
  | role
  | status
  | deviceInfo
deriving DecidableEq

/-- What the schema decides: what a column gives back of what was put into it, and when
    it equals a parameter. -/
structure Database where
  stored : Column → Option Json → Json
  same : Column → Json → Option Json → Bool

structure Bcrypt where
  hash : Str → Str → Str
  compare : Str → Str → Bool

structure Tables where
  users : List Row
  attempts : List (Attempt × Str)
  -- an error that no callback takes ends the process
  halted : Bool

/-- The calls of the database, each with what its statement and its callback take. -/
inductive Query
  | insertUser (number : Nat) (user : NewUser) (hash : Str) (api : Bool)
  | insertAttempt (attempt : Attempt)
  | selectActive (number : Nat) (login : Login)
  | selectUsers (number : Nat)
  | updateLogin (userAgent : Str) (uid : Int)
  | deleteUser (number : Nat) (id : Str)

/-- What a callback is given: `this.lastID`, a row or all rows. -/
structure Result where
  lastID : Int := 0
  row : Option Row := none
  rows : List Row := []

/-- What comes from outside: the failure of a call, a salt, the key of a new row, which
    of the rows found comes first, and the time. -/
inductive Outcome
  | fails (message : Str)
  | salted (salt : Str)
  | inserted (uid : Int) (now : Str)
  | chosen (k : Nat)
  | done (now : Str)

def active : Option Json := some (.str (lit "active"))

/-- `username = ? AND status = 'active'`. -/
def Database.signsIn (db : Database) (username : Option Json) (row : Row) : Bool :=
  db.same .username row.username username && db.same .status row.status active

/-- `uid = ?`. -/
def Database.keyed (db : Database) (uid : Option Json) (row : Row) : Bool := db.same .uid (.int row.uid) uid

/-- The row of `INSERT INTO users`, which has two forms. -/
def Database.row (db : Database) (uid : Int) (user : NewUser) (hash : Str) (api : Bool) (now : Str) : Row where
  uid := uid
  username := db.stored .username user.username
  passphrase := db.stored .passphrase (some (.str hash))
  role := db.stored .role user.role
  status := db.stored .status user.status
  loginTimestamp := if api then .str now else .null
  deviceInfo := db.stored .deviceInfo (if api then some (.str (lit "API")) else some .null)

def Database.signedIn (db : Database) (userAgent : Str) (uid : Int) (now : Str) (row : Row) : Row :=
  if db.keyed (some (.int uid)) row then
    { row with loginTimestamp := .str now, deviceInfo := db.stored .deviceInfo (some (.str userAgent)) }
  else row

def Database.execute (db : Database) (tables : Tables) : Query → Outcome → Option (Except Str Result × Tables)
  | _, .fails message => some (.error message, tables)
  | .insertUser _ user hash api, .inserted uid now =>
    if ∀ row ∈ tables.users, row.uid ≠ uid then
      some (.ok { lastID := uid }, { tables with users := tables.users ++ [db.row uid user hash api now] })
    else none
  | .insertAttempt attempt, .done now => some (.ok {}, { tables with attempts := tables.attempts ++ [(attempt, now)] })
  | .selectActive _ login, .chosen k =>
    match tables.users.filter (db.signsIn login.username) with
    | [] => some (.ok { row := none }, tables)
    | first :: more => ((first :: more)[k]?).map fun row => (.ok { row := some row }, tables)
  | .selectUsers _, .done _ => some (.ok { rows := tables.users }, tables)
  | .updateLogin userAgent uid, .done now =>
    some (.ok {}, { tables with users := tables.users.map (db.signedIn userAgent uid now) })
  | .deleteUser _ id, .done _ =>
    some (.ok {}, { tables with users := tables.users.filter fun row => ! db.keyed (some (.str id)) row })
  | _, _ => none

/-! ### Handlers and callbacks -/

inductive Callback
  | registered (number : Nat) (user : NewUser)
  | added (number : Nat) (user : NewUser)
  | found (number : Nat) (login : Login)
  | listed (number : Nat)
  | deleted (number : Nat) (id : Str)

/-- The request that a callback answers. -/
def Callback.call : Callback → Call
  | .registered number user => ⟨number, .register user⟩
  | .added number user => ⟨number, .addUser user⟩
  | .found number login => ⟨number, .login login⟩
  | .listed number => ⟨number, .listUsers⟩
  | .deleted number id => ⟨number, .deleteUser id⟩

def Query.callback : Query → Option Callback
  | .insertUser number user _ api => some (if api then .added number user else .registered number user)
  | .selectActive number login => some (.found number login)
  | .selectUsers number => some (.listed number)
  | .deleteUser number id => some (.deleted number id)
  | .insertAttempt _ | .updateLogin _ _ => none

/-- What is under way between two turns of the event loop: a `bcrypt` call, a statement,
    or a callback with what it is given. -/
inductive Task
  | hash (number : Nat) (user : NewUser) (api : Bool)
  | compare (number : Nat) (login : Login) (row : Row)
  | run (query : Query)
  | call (callback : Callback) (result : Except Str Result)

abbrev Reply := Call × Response

/-- What a handler or a callback does: the tasks that it starts, and its answers. -/
structure Reaction where
  tasks : List Task := []
  answers : List Reply := []

def failure (message : Str) : Json := .obj [(lit "success", .bool false), (lit "message", .str message)]

def errorBody (message : Str) : Json := .obj [(lit "error", .str message)]

def respond (call : Call) (status : Nat) (body : Json) : Reaction := { answers := [(call, { status := status, body := body })] }

def register (number : Nat) (user : NewUser) : Reaction :=
  if falsy user.username ∨ falsy user.passphrase ∨ falsy user.role ∨ falsy user.status then
    respond ⟨number, .register user⟩ 400 (failure (lit "All fields required."))
  else { tasks := [.hash number user false] }

def login (number : Nat) (login : Login) : Reaction :=
  if falsy login.username ∨ falsy login.passphrase then
    respond ⟨number, .login login⟩ 400 (failure (lit "Missing username or password"))
  else { tasks := [.run (.selectActive number login)] }

def addUser (number : Nat) (user : NewUser) : Reaction :=
  if falsy user.username ∨ falsy user.passphrase then
    respond ⟨number, .addUser user⟩ 400 (errorBody (lit "Missing username or password"))
  else { tasks := [.hash number user true] }

def receive (call : Call) : Reaction :=
  match call.request with
  | .register user => register call.number user
  | .login request => login call.number request
  | .logout =>
    { answers := [(call, { status := 200, body := .obj [(lit "success", .bool true)], cookie := some .cleared })] }
  | .listUsers => { tasks := [.run (.selectUsers call.number)] }
  | .addUser user => addUser call.number user
  | .deleteUser id => { tasks := [.run (.deleteUser call.number id)] }

/-- The callback of `bcrypt.hash`. -/
def hashed (number : Nat) (user : NewUser) (api : Bool) : Option Str → Reaction
  | some hash => { tasks := [.run (.insertUser number user hash api)] }
  | none =>
    if api then respond ⟨number, .addUser user⟩ 500 (errorBody (lit "Server error"))
    else respond ⟨number, .register user⟩ 500 (failure (lit "Hashing error"))

def attempt (login : Login) (uid : Option Int) (success : Bool) : Task :=
  .run (.insertAttempt ⟨uid, login.username, success, login.ip, login.userAgent⟩)

/-- An answer to a login that failed, with its record. -/
def reject (number : Nat) (login : Login) (uid : Option Int) (status : Nat) (message : Str) : Reaction :=
  { tasks := [attempt login uid false], answers := [(⟨number, .login login⟩, { status := status, body := failure message })] }

/-- The answer to a login that succeeded. -/
def welcome (row : Row) : Response where
  status := 200
  body := .obj [(lit "success", .bool true), (lit "role", row.role), (lit "username", row.username)]
  cookie := some .loggedIn

/-- The callback of `bcrypt.compare`, where an error is like a mismatch. -/
def compared (number : Nat) (login : Login) (row : Row) (matched : Bool) : Reaction :=
  if matched then
    { tasks := [.run (.updateLogin login.userAgent row.uid), attempt login (some row.uid) true]
      answers := [(⟨number, .login login⟩, welcome row)] }
  else reject number login (some row.uid) 401 (lit "Invalid credentials")

def given (name : Str) (value : Option Json) : List (Str × Json) := (value.map fun v => (name, v)).toList

/-- `SELECT uid as id, username, role, status`. -/
def Row.listing (row : Row) : Json :=
  .obj [(lit "id", .int row.uid), (lit "username", row.username), (lit "role", row.role), (lit "status", row.status)]

def called : Callback → Except Str Result → Reaction
  | .registered number user, .error message =>
    respond ⟨number, .register user⟩ 500
      (.obj [(lit "success", .bool false), (lit "message", .str (lit "Insert error")), (lit "error", .str message)])
  | .registered number user, .ok result =>
    respond ⟨number, .register user⟩ 200 (.obj [(lit "success", .bool true), (lit "uid", .int result.lastID)])
  | .added number user, .error message =>
    if lit "UNIQUE constraint failed" <:+: message then
      respond ⟨number, .addUser user⟩ 409 (errorBody (lit "Username already exists"))
    else respond ⟨number, .addUser user⟩ 500 (errorBody message)
  | .added number user, .ok result =>
    respond ⟨number, .addUser user⟩ 200 (.obj ((lit "id", .int result.lastID) :: given (lit "username") user.username ++
      given (lit "role") user.role ++ given (lit "status") user.status))
  | .found number login, .error _ => reject number login none 500 (lit "Server error")
  | .found number login, .ok result =>
    match result.row with
    | none => reject number login none 401 (lit "Invalid credentials or inactive account")
    | some row => { tasks := [.compare number login row] }
  | .listed number, .error message => respond ⟨number, .listUsers⟩ 500 (errorBody message)
  | .listed number, .ok result => respond ⟨number, .listUsers⟩ 200 (.arr (result.rows.map Row.listing))
  | .deleted number id, .error message => respond ⟨number, .deleteUser id⟩ 500 (errorBody message)
  | .deleted number id, .ok _ => respond ⟨number, .deleteUser id⟩ 200 (.obj [(lit "success", .bool true)])

/-- `bcrypt.hash`, which takes a string only. -/
def Bcrypt.hashes (bcrypt : Bcrypt) (passphrase : Option Json) : Outcome → Option (Option Str)
  | .fails _ => some none
  | .salted salt =>
    match passphrase with
    | some (.str passphrase) => some (some (bcrypt.hash salt passphrase))
    | _ => some none
  | _ => none

def Bcrypt.accepts (bcrypt : Bcrypt) : Option Json → Json → Bool
  | some (.str passphrase), .str hash => bcrypt.compare passphrase hash
  | _, _ => false

/-- `bcrypt.compare`, which takes strings only. -/
def Bcrypt.compares (bcrypt : Bcrypt) (passphrase : Option Json) (row : Row) : Outcome → Option Bool
  | .fails _ => some false
  | .done _ => some (bcrypt.accepts passphrase row.passphrase)
  | _ => none

/-! ### The server -/

structure Libraries where
  db : Database
  bcrypt : Bcrypt

abbrev Server := Pool Tables Task Reply

def Reaction.effect (reaction : Reaction) (tables : Tables) : Effect Tables Task Reply :=
  ⟨tables, reaction.tasks, reaction.answers⟩

/-- A task that is run. -/
def perform (lib : Libraries) (tables : Tables) : Task → Outcome → Option (Effect Tables Task Reply)
  | .hash number user api, outcome =>
    (lib.bcrypt.hashes user.passphrase outcome).map fun hash => (hashed number user api hash).effect tables
  | .compare number login row, outcome =>
    (lib.bcrypt.compares login.passphrase row outcome).map fun matched => (compared number login row matched).effect tables
  | .run query, outcome =>
    (lib.db.execute tables query outcome).map fun (result, after) =>
      match query.callback with
      | some callback => ⟨after, [.call callback result], []⟩
      | none => ⟨{ after with halted := result.toOption.isNone }, [], []⟩
  | .call callback result, .done _ => some ((called callback result).effect tables)
  | .call _ _, _ => none

inductive Event
  | request (request : Request)
  | run (i : Nat) (outcome : Outcome)

/-- The server with the requests that it has got. -/
structure State where
  calls : List Call
  server : Server

/-- What the lookup of a login has found. -/
def found (db : Database) (tables : Tables) : Task → Outcome → Option (Call × Option Row)
  | .run (.selectActive number login), outcome =>
    match db.execute tables (.selectActive number login) outcome with
    | some (.ok result, _) => some (⟨number, .login login⟩, result.row)
    | _ => none
  | _, _ => none

def step (lib : Libraries) (st : State) : Event → Option (State × Option (Call × Option Row))
  | .request request =>
    if st.server.state.halted then none
    else
      let call := ⟨st.calls.length, request⟩
      some (⟨st.calls ++ [call], st.server.apply ((receive call).effect st.server.state)⟩, none)
  | .run i outcome =>
    if st.server.state.halted then none
    else do
      let task ← st.server.tasks[i]?
      let effect ← perform lib st.server.state task outcome
      some (⟨st.calls, (st.server.without i).apply effect⟩, found lib.db st.server.state task outcome)

/-- The server has started, with the tables of its database. -/
def opened (users : List Row) (attempts : List (Attempt × Str)) : State := ⟨[], ⟨⟨users, attempts, false⟩, [], []⟩⟩

/-! ### What a task does -/

variable {lib : Libraries} {tables : Tables} {outcome : Outcome}

/-- What a handler does before its first call. -/
inductive Received : Call → Reaction → Prop
  | refused {number request body} : Received ⟨number, request⟩ (respond ⟨number, request⟩ 400 body)
  | register {number user} : Received ⟨number, .register user⟩ { tasks := [.hash number user false] }
  | login {number login} : Received ⟨number, .login login⟩ { tasks := [.run (.selectActive number login)] }
  | logout {number response} : Received ⟨number, .logout⟩ { answers := [(⟨number, .logout⟩, response)] }
  | listUsers {number} : Received ⟨number, .listUsers⟩ { tasks := [.run (.selectUsers number)] }
  | addUser {number user} : Received ⟨number, .addUser user⟩ { tasks := [.hash number user true] }
  | deleteUser {number id} : Received ⟨number, .deleteUser id⟩ { tasks := [.run (.deleteUser number id)] }

theorem receive_received (call : Call) : Received call (receive call) := by
  obtain ⟨number, request⟩ := call
  cases request with
  | register user =>
    show Received _ (register number user)
    rw [register]
    split
    · exact .refused
    · exact .register
  | login login =>
    show Received _ (Accounts.login number login)
    rw [Accounts.login]
    split
    · exact .refused
    · exact .login
  | addUser user =>
    show Received _ (addUser number user)
    rw [addUser]
    split
    · exact .refused
    · exact .addUser
  | logout => exact .logout
  | listUsers => exact .listUsers
  | deleteUser id => exact .deleteUser

/-- What a callback does: only that of a lookup starts anything. -/
inductive Called : Callback → Except Str Result → Reaction → Prop
  | answered {callback result status body} (other : ∀ number login, callback ≠ .found number login)
      (failed : ∀ message, result = .error message → status ≠ 200) :
      Called callback result (respond callback.call status body)
  | failed {number login message} :
      Called (.found number login) (.error message) (reject number login none 500 (lit "Server error"))
  | notFound {number login result} (none_found : result.row = none) :
      Called (.found number login) (.ok result)
        (reject number login none 401 (lit "Invalid credentials or inactive account"))
  | found {number login result row} (found : result.row = some row) :
      Called (.found number login) (.ok result) { tasks := [.compare number login row] }

theorem called_called (callback : Callback) (result : Except Str Result) : Called callback result (called callback result) := by
  cases callback with
  | registered number user => cases result <;> exact .answered nofun (by simp)
  | added number user =>
    cases result with
    | ok result => exact .answered nofun (by simp)
    | error message =>
      rw [called]
      split <;> exact .answered nofun (by simp)
  | found number login =>
    cases result with
    | error message => exact .failed
    | ok result =>
      rw [called]
      split
      · next none_found => exact .notFound none_found
      · next row found => exact .found found
  | listed number => cases result <;> exact .answered nofun (by simp)
  | deleted number id => cases result <;> exact .answered nofun (by simp)

/-- The outcomes of the statements. -/
inductive Executed (db : Database) (tables : Tables) : Query → Outcome → Except Str Result → Tables → Prop
  | fails {query message} : Executed db tables query (.fails message) (.error message) tables
  | insertUser {number user hash api uid now} (free : ∀ row ∈ tables.users, row.uid ≠ uid) :
      Executed db tables (.insertUser number user hash api) (.inserted uid now) (.ok { lastID := uid })
        { tables with users := tables.users ++ [db.row uid user hash api now] }
  | insertAttempt {attempt now} :
      Executed db tables (.insertAttempt attempt) (.done now) (.ok {})
        { tables with attempts := tables.attempts ++ [(attempt, now)] }
  | notFound {number login k} (none_active : ∀ row ∈ tables.users, db.signsIn login.username row = false) :
      Executed db tables (.selectActive number login) (.chosen k) (.ok { row := none }) tables
  | found {number login k row} (member : row ∈ tables.users) (active : db.signsIn login.username row = true) :
      Executed db tables (.selectActive number login) (.chosen k) (.ok { row := some row }) tables
  | selectUsers {number now} : Executed db tables (.selectUsers number) (.done now) (.ok { rows := tables.users }) tables
  | updateLogin {userAgent uid now} :
      Executed db tables (.updateLogin userAgent uid) (.done now) (.ok {})
        { tables with users := tables.users.map (db.signedIn userAgent uid now) }
  | deleteUser {number id now} :
      Executed db tables (.deleteUser number id) (.done now) (.ok {})
        { tables with users := tables.users.filter fun row => ! db.keyed (some (.str id)) row }

theorem execute_executed {db : Database} {query : Query} {result : Except Str Result} {after : Tables}
    (done : db.execute tables query outcome = some (result, after)) : Executed db tables query outcome result after := by
  unfold Database.execute at done
  split at done
  · cases done
    exact .fails
  · split at done
    · next free =>
      cases done
      exact .insertUser free
    · cases done
  · cases done
    exact .insertAttempt
  · split at done
    · next none_active =>
      cases done
      exact .notFound fun row member => by simpa using List.filter_eq_nil_iff.mp none_active row member
    · next first more some_active =>
      obtain ⟨row, there, same⟩ := Option.map_eq_some_iff.mp done
      cases same
      have member := List.mem_of_getElem? there
      rw [← some_active, List.mem_filter] at member
      exact .found member.1 member.2
  · cases done
    exact .selectUsers
  · cases done
    exact .updateLogin
  · cases done
    exact .deleteUser
  · cases done

/-- The five kinds of tasks, each with what it leaves. -/
inductive Performed (lib : Libraries) (tables : Tables) (outcome : Outcome) : Task → Effect Tables Task Reply → Prop
  | hash {number user api hash} (made : lib.bcrypt.hashes user.passphrase outcome = some hash) :
      Performed lib tables outcome (.hash number user api) ((hashed number user api hash).effect tables)
  | compare {number login row matched} (made : lib.bcrypt.compares login.passphrase row outcome = some matched) :
      Performed lib tables outcome (.compare number login row) ((compared number login row matched).effect tables)
  | run {query callback result after} (executed : lib.db.execute tables query outcome = some (result, after))
      (called : query.callback = some callback) :
      Performed lib tables outcome (.run query) ⟨after, [.call callback result], []⟩
  | runOnly {query result after} (executed : lib.db.execute tables query outcome = some (result, after))
      (uncalled : query.callback = none) :
      Performed lib tables outcome (.run query) ⟨{ after with halted := result.toOption.isNone }, [], []⟩
  | call {callback result} :
      Performed lib tables outcome (.call callback result) ((called callback result).effect tables)

theorem perform_performed {task : Task} {effect : Effect Tables Task Reply}
    (done : perform lib tables task outcome = some effect) : Performed lib tables outcome task effect := by
  unfold perform at done
  split at done
  · obtain ⟨hash, made, rfl⟩ := Option.map_eq_some_iff.mp done
    exact .hash made
  · obtain ⟨matched, made, rfl⟩ := Option.map_eq_some_iff.mp done
    exact .compare made
  · obtain ⟨⟨result, after⟩, executed, rfl⟩ := Option.map_eq_some_iff.mp done
    dsimp only
    split
    · next called => exact .run executed called
    · next uncalled => exact .runOnly executed uncalled
  · cases done
    exact .call
  · cases done

/-- A step takes a request or runs a task. -/
inductive Stepped (lib : Libraries) (st : State) : Event → State → Option (Call × Option Row) → Prop
  | request {request} :
      Stepped lib st (.request request) ⟨st.calls ++ [⟨st.calls.length, request⟩],
        st.server.apply ((receive ⟨st.calls.length, request⟩).effect st.server.state)⟩ none
  | run {i outcome task effect} (there : st.server.tasks[i]? = some task)
      (performed : Performed lib st.server.state outcome task effect) :
      Stepped lib st (.run i outcome) ⟨st.calls, (st.server.without i).apply effect⟩
        (found lib.db st.server.state task outcome)

theorem step_stepped {st next : State} {event : Event} {seen : Option (Call × Option Row)}
    (done : step lib st event = some (next, seen)) :
    st.server.state.halted = false ∧ Stepped lib st event next seen := by
  cases event with
  | request request =>
    rw [step] at done
    split at done
    · cases done
    · next running =>
      cases done
      exact ⟨by simpa using running, .request⟩
  | run i outcome =>
    rw [step] at done
    split at done
    · cases done
    · next running =>
      obtain ⟨task, there, rest⟩ := Option.bind_eq_some_iff.mp done
      obtain ⟨effect, performed, same⟩ := Option.bind_eq_some_iff.mp rest
      cases same
      exact ⟨by simpa using running, .run there (perform_performed performed)⟩

/-! ### One answer to each request -/

/-- The request that a task will answer. -/
def Task.owes : Task → List Call
  | .hash number user api => [⟨number, if api then .addUser user else .register user⟩]
  | .compare number login _ => [⟨number, .login login⟩]
  | .run query => (query.callback.map Callback.call).toList
  | .call callback _ => [callback.call]

def Reaction.owes (reaction : Reaction) : List Call :=
  total Task.owes (fun answer => [answer.1]) reaction.tasks reaction.answers

theorem owes_receive (call : Call) : (receive call).owes = [call] := by
  have received := receive_received call
  generalize receive call = reaction at received
  cases received <;> rfl

theorem owes_hashed (number : Nat) (user : NewUser) (api : Bool) (hash : Option Str) :
    (hashed number user api hash).owes = (Task.hash number user api).owes := by
  cases hash <;> cases api <;> rfl

theorem owes_compared (number : Nat) (login : Login) (row : Row) (matched : Bool) :
    (compared number login row matched).owes = [⟨number, .login login⟩] := by
  cases matched <;> rfl

theorem owes_called (callback : Callback) (result : Except Str Result) : (called callback result).owes = [callback.call] := by
  have made := called_called callback result
  generalize called callback result = reaction at made ⊢
  cases made <;> rfl

/-- A task leaves the answer that it owed, or one task that owes it. -/
theorem owes_performed {task : Task} {effect : Effect Tables Task Reply} (done : Performed lib tables outcome task effect) :
    total Task.owes (fun answer => [answer.1]) effect.tasks effect.answers = task.owes := by
  cases done with
  | hash => exact owes_hashed ..
  | compare => exact owes_compared ..
  | run _ called => simp [total, Task.owes, called]
  | runOnly _ uncalled => simp [total, Task.owes, uncalled]
  | call => exact owes_called ..

/-- A task answers the request that it owes an answer. -/
theorem reply_performed {task : Task} {effect : Effect Tables Task Reply} (done : Performed lib tables outcome task effect)
    {reply : Reply} (member : reply ∈ effect.answers) : reply.1 ∈ task.owes := by
  rw [← owes_performed done]
  exact List.mem_append_left _ (List.mem_flatMap.mpr ⟨reply, member, List.mem_singleton_self _⟩)

/-- Neither a handler nor a callback calls another callback. -/
def Task.Calls : Task → Prop
  | .call _ _ => True
  | _ => False

theorem receive_calls (call : Call) : ∀ task ∈ (receive call).tasks, ¬ task.Calls := by
  have received := receive_received call
  generalize receive call = reaction at received ⊢
  cases received <;> simp [respond, Task.Calls]

theorem hashed_calls (number : Nat) (user : NewUser) (api : Bool) (hash : Option Str) :
    ∀ task ∈ (hashed number user api hash).tasks, ¬ task.Calls := by
  cases hash <;> cases api <;> simp [hashed, respond, Task.Calls]

theorem compared_calls (number : Nat) (login : Login) (row : Row) (matched : Bool) :
    ∀ task ∈ (compared number login row matched).tasks, ¬ task.Calls := by
  cases matched <;> simp [compared, reject, attempt, Task.Calls]

theorem called_calls (callback : Callback) (result : Except Str Result) :
    ∀ task ∈ (called callback result).tasks, ¬ task.Calls := by
  have made := called_called callback result
  generalize called callback result = reaction at made ⊢
  cases made <;> simp [respond, reject, attempt, Task.Calls]

/-- The requests that have been answered, and those that will be. -/
def State.answered (st : State) : List Call :=
  total Task.owes (fun answer => [answer.1]) st.server.tasks st.server.answers

/-- The calls are numbered, and each has been answered once or is owed an answer by one
    task. -/
structure Balanced (st : State) : Prop where
  numbers : st.calls.map Call.number = List.range st.calls.length
  answered : st.answered.Perm st.calls

theorem balanced_opened (users : List Row) (attempts : List (Attempt × Str)) : Balanced (opened users attempts) :=
  ⟨rfl, .refl _⟩

theorem Balanced.distinct {st : State} (balanced : Balanced st) : (st.calls.map Call.number).Nodup := by
  rw [balanced.numbers]
  exact List.nodup_range

theorem Balanced.owed {st : State} (balanced : Balanced st) {task : Task} (member : task ∈ st.server.tasks) {call : Call}
    (owes : call ∈ task.owes) : call ∈ st.calls :=
  balanced.answered.mem_iff.mp (List.mem_append_right _ (List.mem_flatMap.mpr ⟨task, member, owes⟩))

theorem Balanced.step {st next : State} {event : Event} {seen : Option (Call × Option Row)} (balanced : Balanced st)
    (done : step lib st event = some (next, seen)) : Balanced next := by
  obtain ⟨-, stepped⟩ := step_stepped done
  cases stepped with
  | request =>
    next request =>
    refine ⟨by simp [balanced.numbers, List.range_succ], ?_⟩
    have own := owes_receive ⟨st.calls.length, request⟩
    have both := total_append Task.owes (fun answer : Reply => [answer.1]) st.server.tasks
      (receive ⟨st.calls.length, request⟩).tasks st.server.answers (receive ⟨st.calls.length, request⟩).answers
    rw [Reaction.owes] at own
    rw [own] at both
    exact both.trans (balanced.answered.append_right _)
  | run there performed =>
    exact ⟨balanced.numbers, (total_step there (.of_eq (owes_performed performed))).trans balanced.answered⟩

end Hde.Accounts
