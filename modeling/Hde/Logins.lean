import Hde.Accounts

/-!
What the sign-in server guarantees in whatever order its tasks run: each request is
answered once (`answered_once`), each login that is answered is recorded once
(`attempts_recorded`), an account is one that was in the database or was registered
(`users_registered`), and a login gets the answer that the table gave at one moment
after its request (`login_decided`), where a call that fails never lets it in
(`login_sound`).
-/
namespace Hde.Logins
open Hde.Text Hde.Numerals Hde.JsonText Hde.Page Hde.Tasks Hde.Runs Hde.Accounts

variable {lib : Libraries} {users : List Row} {attempts : List (Attempt × Str)} {allowed : State → Event → Prop}
  {events : List (Option (Call × Option Row))} {st next : State} {event : Event} {seen : Option (Call × Option Row)}

theorem balanced_run (run : Run (step lib) allowed (opened users attempts) events st) : Balanced st :=
  run.invariant (fun _ st => Balanced st) (balanced_opened users attempts)
    fun _ _ _ _ _ balanced _ done => balanced.step done

/-- Each request is answered once, or is owed its answer by one task; no two requests
    have one number. -/
theorem answered_once (run : Run (step lib) allowed (opened users attempts) events st) :
    (st.server.answers.map Prod.fst ++ st.server.tasks.flatMap Task.owes).Perm st.calls ∧
      (st.calls.map Call.number).Nodup := by
  have balanced := balanced_run run
  refine ⟨?_, balanced.distinct⟩
  have answered := balanced.answered
  rwa [State.answered, total, ← List.map_eq_flatMap] at answered

/-- A call fails. -/
def Fails : Event → Prop
  | .run _ (.fails _) => True
  | _ => False

instance : DecidablePred Fails
  | .run _ (.fails _) => isTrue trivial
  | .run _ (.salted _) | .run _ (.inserted _ _) | .run _ (.chosen _) | .run _ (.done _) | .request _ => isFalse not_false

/-- Columns that keep texts and numbers as they are. -/
def plainDatabase : Database where
  stored _ value := value.getD .null
  same _ value parameter :=
    match value, parameter with
    | .str own, some (.str other) => decide (own = other)
    | .int own, some (.int other) => decide (own = other)
    | .int own, some (.str other) => decide (intText own = other)
    | _, _ => false

/-- Hashes that keep a salt of 22 characters before the passphrase. -/
def plainBcrypt : Bcrypt where
  hash salt passphrase := lit "$2b$10$" ++ salt ++ passphrase
  compare passphrase hash := decide (hash = hash.take 29 ++ passphrase)

def plain : Libraries := ⟨plainDatabase, plainBcrypt⟩

def ann : List (Str × Json) :=
  [(lit "username", .str (lit "ann")), (lit "passphrase", .str (lit "secret")), (lit "role", .str (lit "user")),
    (lit "status", .str (lit "active"))]

def localhost : Client := ⟨some (lit "::1"), none, none, none⟩

def noon : Str := lit "2024-07-29 12:00:00"

/-- A registration and a login, up to its answer. -/
def visit : List Event :=
  [.request (registerRequest ann), .run 0 (.salted (lit "N9qo8uLOickgx2ZMRZoMye")), .run 0 (.inserted 1 noon),
    .run 0 (.done noon), .request (loginRequest ann localhost), .run 0 (.chosen 0), .run 0 (.done noon), .run 0 (.done noon)]

def visited : State := reached (step plain) (fun _ event => decide (¬ Fails event)) (opened [] []) visit

theorem run_visited : ∃ events, Run (step plain) (fun _ event => ¬ Fails event) (opened [] []) events visited :=
  run_reached (by decide +kernel)

theorem answered_once_visited :
    (visited.server.answers.map Prod.fst ++ visited.server.tasks.flatMap Task.owes).Perm visited.calls ∧
      (visited.calls.map Call.number).Nodup :=
  have ⟨_, run⟩ := run_visited
  answered_once run

/-! ### The records of the logins -/

/-- An attempt without the `uid`, which the answer does not show. -/
def Attempt.unnamed (attempt : Attempt) : Attempt := { attempt with uid := none }

/-- The attempts that a task records. -/
def records : Task → List Attempt
  | .run (.insertAttempt attempt) => [Attempt.unnamed attempt]
  | _ => []

/-- The attempt that an answer stands for. -/
def audited : Reply → List Attempt
  | (⟨_, .login login⟩, response) =>
    if response.status = 400 then [] else [⟨none, login.username, response.status = 200, login.ip, login.userAgent⟩]
  | _ => []

theorem records_receive (call : Call) :
    (receive call).tasks.flatMap records = [] ∧ (receive call).answers.flatMap audited = [] := by
  have received := receive_received call
  generalize receive call = reaction at received ⊢
  cases received with
  | refused =>
    next number request body =>
    cases request <;> exact ⟨rfl, rfl⟩
  | register => exact ⟨rfl, rfl⟩
  | login => exact ⟨rfl, rfl⟩
  | logout => exact ⟨rfl, rfl⟩
  | listUsers => exact ⟨rfl, rfl⟩
  | addUser => exact ⟨rfl, rfl⟩
  | deleteUser => exact ⟨rfl, rfl⟩

theorem records_called (callback : Callback) (result : Except Str Result) :
    (called callback result).tasks.flatMap records = (called callback result).answers.flatMap audited := by
  have made := called_called callback result
  generalize called callback result = reaction at made ⊢
  cases made with
  | answered other =>
    cases callback with
    | found number login => exact absurd rfl (other number login)
    | _ => rfl
  | _ => rfl

theorem records_of_called {query : Query} {callback : Callback} (called : query.callback = some callback) :
    records (.run query) = [] := by
  cases query with
  | insertAttempt attempt => cases called
  | _ => rfl

def noted (tables : Tables) : List Attempt := tables.attempts.map fun entry => Attempt.unnamed entry.1

/-- A task records what it had to, and leaves a record for each login that it answers. -/
theorem noted_performed {tables : Tables} {outcome : Outcome} {task : Task} {effect : Effect Tables Task Reply}
    (done : Performed lib tables outcome task effect) (running : effect.state.halted = false) :
    noted effect.state ++ effect.tasks.flatMap records =
      noted tables ++ records task ++ effect.answers.flatMap audited := by
  cases done with
  | hash =>
    next number user api hash made =>
    cases hash <;> cases api <;> simp [Reaction.effect, hashed, records, respond, audited]
  | compare =>
    next number login row matched made =>
    cases matched <;> simp [Reaction.effect, compared, reject, attempt, welcome, records, audited, Attempt.unnamed]
  | run executed called =>
    rw [records_of_called called]
    cases execute_executed executed with
    | insertAttempt => cases called
    | _ => simp [noted, records]
  | runOnly executed uncalled =>
    cases execute_executed executed <;> simp_all [Query.callback, records, noted, Except.toOption]
  | call =>
    next callback result =>
    simp [Reaction.effect, records, records_called]

/-- Of every login that is answered there is one record, in the table or under way to it,
    as long as no record failed, and there are no others. -/
theorem attempts_recorded (run : Run (step lib) allowed (opened users attempts) events st)
    (running : st.server.state.halted = false) :
    (noted st.server.state ++ st.server.tasks.flatMap records).Perm
      (attempts.map (fun entry => Attempt.unnamed entry.1) ++ st.server.answers.flatMap audited) := by
  revert running
  refine run.invariant (fun _ st => st.server.state.halted = false → (noted st.server.state ++
    st.server.tasks.flatMap records).Perm (attempts.map (fun entry => Attempt.unnamed entry.1) ++
      st.server.answers.flatMap audited)) (fun _ => .refl _) ?_
  rintro earlier s input t seen before - done running
  obtain ⟨unhalted, stepped⟩ := step_stepped done
  have before := before unhalted
  cases stepped with
  | request =>
    next request =>
    obtain ⟨none_recorded, none_audited⟩ := records_receive ⟨s.calls.length, request⟩
    simpa [Pool.apply, Reaction.effect, none_recorded, none_audited, noted] using before
  | run there performed =>
    next i outcome task effect =>
    have owed := due_step records effect there
    have balance := noted_performed performed running
    classical
    simp only [List.perm_iff_count, List.count_append, Pool.apply, Pool.without, List.flatMap_append] at *
    intro item
    have := before item
    have := owed item
    have := congrArg (List.count item) balance
    simp only [List.count_append] at this
    omega

theorem attempts_recorded_visited :
    (noted visited.server.state ++ visited.server.tasks.flatMap records).Perm
      ([] ++ [⟨none, some (.str (lit "ann")), true, some (lit "::1"), lit "Unknown"⟩]) :=
  have ⟨_, run⟩ := run_visited
  attempts_recorded run rfl

/-! ### Where the accounts come from -/

/-- What signing in leaves as it is. -/
def Row.account (row : Row) : Int × Json × Json × Json × Json :=
  (row.uid, row.username, row.passphrase, row.role, row.status)

/-- The row stores what a request gave, with a hash of its passphrase. -/
def Registered (lib : Libraries) (calls : List Call) (row : Row) : Prop :=
  ∃ call ∈ calls, ∃ user passphrase salt, (call.request = .register user ∨ call.request = .addUser user) ∧
    user.passphrase = some (.str passphrase) ∧ row.username = lib.db.stored .username user.username ∧
    row.passphrase = lib.db.stored .passphrase (some (.str (lib.bcrypt.hash salt passphrase))) ∧
    row.role = lib.db.stored .role user.role ∧ row.status = lib.db.stored .status user.status

theorem Registered.more {calls : List Call} {row : Row} (registered : Registered lib calls row) (later : List Call) :
    Registered lib (calls ++ later) row := by
  obtain ⟨call, member, rest⟩ := registered
  exact ⟨call, List.mem_append_left _ member, rest⟩

theorem Registered.of_account {calls : List Call} {row old : Row} (same : Row.account row = Row.account old)
    (registered : Registered lib calls old) : Registered lib calls row := by
  simp only [Row.account, Prod.mk.injEq] at same
  obtain ⟨-, username, passphrase, role, status⟩ := same
  rw [Registered, username, passphrase, role, status]
  exact registered

structure Accounted (lib : Libraries) (users : List Row) (st : State) : Prop where
  balanced : Balanced st
  rows : ∀ row ∈ st.server.state.users, (∃ old ∈ users, Row.account row = Row.account old) ∨ Registered lib st.calls row
  hashes : ∀ number user hash api, .run (.insertUser number user hash api) ∈ st.server.tasks →
    ∃ passphrase salt, user.passphrase = some (.str passphrase) ∧ hash = lib.bcrypt.hash salt passphrase

theorem account_signedIn (db : Database) (userAgent : Str) (uid : Int) (now : Str) (row : Row) :
    Row.account (db.signedIn userAgent uid now row) = Row.account row := by
  rw [Database.signedIn]
  split <;> rfl

/-- A statement inserts one row, or leaves accounts that were there. -/
theorem users_executed {db : Database} {tables after : Tables} {query : Query} {outcome : Outcome} {result : Except Str Result}
    (executed : Executed db tables query outcome result after) :
    (∃ number user hash api uid now, query = .insertUser number user hash api ∧
      after.users = tables.users ++ [db.row uid user hash api now]) ∨
    ∀ row ∈ after.users, ∃ old ∈ tables.users, Row.account row = Row.account old := by
  cases executed with
  | insertUser free => exact .inl ⟨_, _, _, _, _, _, rfl, rfl⟩
  | updateLogin =>
    refine .inr fun row member => ?_
    obtain ⟨old, there, rfl⟩ := List.mem_map.mp member
    exact ⟨old, there, account_signedIn ..⟩
  | deleteUser => exact .inr fun row member => ⟨row, (List.mem_filter.mp member).1, rfl⟩
  | _ => exact .inr fun row member => ⟨row, member, rfl⟩

theorem hashed_insertUser {bcrypt : Bcrypt} {number : Nat} {user : NewUser} {api : Bool} {outcome : Outcome}
    {made : Option Str} (hashes : bcrypt.hashes user.passphrase outcome = some made) {task : Task}
    (member : task ∈ (hashed number user api made).tasks) :
    ∃ passphrase salt, user.passphrase = some (.str passphrase) ∧
      task = .run (.insertUser number user (bcrypt.hash salt passphrase) api) := by
  cases made with
  | none => cases api <;> cases member
  | some hash =>
    rw [hashed, List.mem_singleton] at member
    unfold Bcrypt.hashes at hashes
    split at hashes
    · cases hashes
    · next salt =>
      split at hashes
      · next own passphrase text =>
        cases hashes
        exact ⟨passphrase, salt, text, member⟩
      · cases hashes
    · cases hashes

theorem called_insertUser {callback : Callback} {result : Except Str Result} {query : Query}
    (member : .run query ∈ (called callback result).tasks) : ∃ attempt, query = .insertAttempt attempt := by
  have made := called_called callback result
  generalize called callback result = reaction at made member
  cases made with
  | answered => cases member
  | found => cases List.mem_singleton.mp member
  | _ =>
    cases List.mem_singleton.mp member
    exact ⟨_, rfl⟩

theorem Accounted.executed (accounted : Accounted lib users st) {query : Query} (member : .run query ∈ st.server.tasks)
    {outcome : Outcome} {result : Except Str Result} {after : Tables}
    (executed : Executed lib.db st.server.state query outcome result after) :
    ∀ row ∈ after.users, (∃ old ∈ users, Row.account row = Row.account old) ∨ Registered lib st.calls row := by
  have kept : ∀ row, (∃ old ∈ st.server.state.users, Row.account row = Row.account old) →
      (∃ old ∈ users, Row.account row = Row.account old) ∨ Registered lib st.calls row := by
    rintro row ⟨old, there, same⟩
    rcases accounted.rows old there with ⟨first, opened, before⟩ | registered
    · exact .inl ⟨first, opened, same.trans before⟩
    · exact .inr (registered.of_account same)
  rcases users_executed executed with ⟨number, user, hash, api, uid, now, rfl, inserted⟩ | left
  · intro row present
    rw [inserted] at present
    rcases List.mem_append.mp present with old | new
    · exact accounted.rows row old
    · obtain ⟨passphrase, salt, text, rfl⟩ := accounted.hashes number user hash api member
      have asked := accounted.balanced.owed member (List.mem_singleton_self _)
      rw [List.mem_singleton.mp new]
      refine .inr ⟨_, asked, user, passphrase, salt, ?_, text, rfl, rfl, rfl, rfl⟩
      cases api
      · exact .inl rfl
      · exact .inr rfl
  · exact fun row present => kept row (left row present)

theorem Accounted.step (accounted : Accounted lib users st) (done : step lib st event = some (next, seen)) :
    Accounted lib users next := by
  have balanced := accounted.balanced.step done
  obtain ⟨-, stepped⟩ := step_stepped done
  cases stepped with
  | @request request =>
    refine ⟨balanced, fun row member => (accounted.rows row member).imp_right (·.more _), ?_⟩
    intro number user hash api member
    rcases List.mem_append.mp member with old | new
    · exact accounted.hashes number user hash api old
    · have received := receive_received ⟨st.calls.length, request⟩
      rw [Reaction.effect] at new
      generalize receive ⟨st.calls.length, request⟩ = reaction at received new
      cases received <;> simp [respond] at new
  | @run i outcome task effect there performed =>
    have own : ∀ number user hash api, .run (.insertUser number user hash api) ∈ effect.tasks →
        ∃ passphrase salt, user.passphrase = some (.str passphrase) ∧ hash = lib.bcrypt.hash salt passphrase := by
      intro number user hash api member
      cases performed with
      | hash made =>
        obtain ⟨passphrase, salt, text, same⟩ := hashed_insertUser made member
        cases same
        exact ⟨passphrase, salt, text, rfl⟩
      | compare =>
        next matched _ =>
        cases matched <;> simp [Reaction.effect, compared, reject, attempt] at member
      | run => simp at member
      | runOnly => simp at member
      | call =>
        obtain ⟨attempt, same⟩ := called_insertUser member
        cases same
    refine ⟨balanced, ?_, fun number user hash api member =>
      (mem_tasks_step member).elim (accounted.hashes number user hash api) (own number user hash api)⟩
    cases performed with
    | hash => exact accounted.rows
    | compare => exact accounted.rows
    | run executed => exact accounted.executed (List.mem_of_getElem? there) (execute_executed executed)
    | runOnly executed => exact fun row => accounted.executed (List.mem_of_getElem? there) (execute_executed executed) row
    | call => exact accounted.rows

theorem accounted_opened (lib : Libraries) (users : List Row) (attempts : List (Attempt × Str)) :
    Accounted lib users (opened users attempts) :=
  ⟨balanced_opened users attempts, fun row member => .inl ⟨row, member, rfl⟩, nofun⟩

theorem accounted_run (run : Run (step lib) allowed (opened users attempts) events st) : Accounted lib users st :=
  run.invariant (fun _ st => Accounted lib users st) (accounted_opened lib users attempts)
    fun _ _ _ _ _ accounted _ done => accounted.step done

/-- Every account was in the database when the server started, or was asked for by a
    request, and then the table has a hash of its passphrase. -/
theorem users_registered (run : Run (step lib) allowed (opened users attempts) events st) :
    ∀ row ∈ st.server.state.users,
      (∃ old ∈ users, Row.account row = Row.account old) ∨ Registered lib st.calls row :=
  (accounted_run run).rows

theorem users_registered_visited : ∃ row ∈ visited.server.state.users, Registered plain visited.calls row := by
  obtain ⟨events, run⟩ := run_visited
  refine ⟨_, List.mem_singleton_self _, ?_⟩
  rcases users_registered run _ (List.mem_singleton_self _) with ⟨old, inside, -⟩ | registered
  · exact absurd inside List.not_mem_nil
  · exact registered

/-! ### What a login is answered -/

/-- What a login is answered when its lookup has found a row or none. -/
def verdict (lib : Libraries) (login : Login) : Option Row → Response
  | none => { status := 401, body := failure (lit "Invalid credentials or inactive account") }
  | some row =>
    if lib.bcrypt.accepts login.passphrase row.passphrase then welcome row
    else { status := 401, body := failure (lit "Invalid credentials") }

/-- The answer to a login without its fields, one that its lookup decides, or the
    refusal that follows a fault. -/
def Justified (lib : Libraries) (faulty : Prop) (events : List (Option (Call × Option Row))) (number : Nat) (login : Login)
    (response : Response) : Prop :=
  response = { status := 400, body := failure (lit "Missing username or password") } ∨
    (∃ row, some (⟨number, .login login⟩, row) ∈ events ∧ response = verdict lib login row) ∨
      faulty ∧ response.status ≠ 200

/-- What a task of a login has from its lookup. -/
def Traced (faulty : Prop) (events : List (Option (Call × Option Row))) : Task → Prop
  | .call (.found number login) (.ok result) => some (⟨number, .login login⟩, result.row) ∈ events
  | .call (.found _ _) (.error _) => faulty
  | .compare number login row => some (⟨number, .login login⟩, some row) ∈ events
  | _ => True

structure Sound (lib : Libraries) (faulty : Prop) (events : List (Option (Call × Option Row))) (st : State) : Prop where
  tasks : ∀ task ∈ st.server.tasks, Traced faulty events task
  answers : ∀ number login response, (⟨number, .login login⟩, response) ∈ st.server.answers →
    Justified lib faulty events number login response

variable {faulty : Prop}

theorem Justified.later {number : Nat} {login : Login} {response : Response}
    (justified : Justified lib faulty events number login response) (more : List (Option (Call × Option Row))) :
    Justified lib faulty (events ++ more) number login response := by
  rcases justified with missing | ⟨row, looked, decided⟩ | fault
  · exact .inl missing
  · exact .inr (.inl ⟨row, List.mem_append_left _ looked, decided⟩)
  · exact .inr (.inr fault)

theorem Traced.later {task : Task} (traced : Traced faulty events task) (more : List (Option (Call × Option Row))) :
    Traced faulty (events ++ more) task := by
  unfold Traced at *
  split
  · exact List.mem_append_left _ traced
  · exact traced
  · exact List.mem_append_left _ traced
  · trivial

theorem traced_receive (call : Call) : ∀ task ∈ (receive call).tasks, Traced faulty events task := by
  have received := receive_received call
  generalize receive call = reaction at received ⊢
  intro task member
  cases received <;> simp [respond] at member <;> subst member <;> trivial

theorem justified_receive {call : Call} {number : Nat} {login : Login} {response : Response}
    (member : (⟨number, .login login⟩, response) ∈ (receive call).answers) :
    Justified lib faulty events number login response := by
  obtain ⟨own, request⟩ := call
  cases request with
  | login login =>
    change _ ∈ (Accounts.login own login).answers at member
    rw [Accounts.login] at member
    split at member
    · cases List.mem_singleton.mp member
      exact .inl rfl
    · cases member
  | register user =>
    change _ ∈ (register own user).answers at member
    rw [register] at member
    split at member <;> simp [respond] at member
  | addUser user =>
    change _ ∈ (addUser own user).answers at member
    rw [addUser] at member
    split at member <;> simp [respond] at member
  | logout => simp [receive] at member
  | listUsers => simp [receive] at member
  | deleteUser id => simp [receive] at member

/-- The callback of a lookup or of anything else. -/
theorem traced_called {callback : Callback} {result : Except Str Result}
    (traced : Traced faulty events (.call callback result)) :
    (∀ task ∈ (called callback result).tasks, Traced faulty events task) ∧
      ∀ number login response, (⟨number, .login login⟩, response) ∈ (called callback result).answers →
        Justified lib faulty events number login response := by
  have made := called_called callback result
  generalize called callback result = reaction at made ⊢
  cases made with
  | answered other =>
    refine ⟨nofun, fun number login response member => ?_⟩
    have same := congrArg Prod.fst (List.mem_singleton.mp member)
    cases callback with
    | found own request => exact absurd rfl (other own request)
    | _ => cases same
  | failed =>
    refine ⟨by simp [reject, attempt, Traced], fun number login response member => ?_⟩
    cases List.mem_singleton.mp member
    exact .inr (.inr ⟨traced, by simp⟩)
  | notFound none_found =>
    refine ⟨by simp [reject, attempt, Traced], fun number login response member => ?_⟩
    cases List.mem_singleton.mp member
    exact .inr (.inl ⟨none, none_found ▸ traced, rfl⟩)
  | @found own request result row found =>
    refine ⟨fun task member => ?_, fun number login response member => by cases member⟩
    rw [List.mem_singleton.mp member]
    show some (_, some row) ∈ events
    rw [← found]
    exact traced

theorem traced_compared {number : Nat} {login : Login} {row : Row} {outcome : Outcome} {matched : Bool} {i : Nat}
    (healthy : Fails (.run i outcome) → faulty) (made : lib.bcrypt.compares login.passphrase row outcome = some matched)
    (traced : Traced faulty events (.compare number login row)) :
    (∀ task ∈ (compared number login row matched).tasks, Traced faulty events task) ∧
      ∀ own request response, (⟨own, .login request⟩, response) ∈ (compared number login row matched).answers →
        Justified lib faulty events own request response := by
  refine ⟨by cases matched <;> simp [compared, reject, attempt, Traced], fun own request response member => ?_⟩
  cases outcome with
  | fails message =>
    cases made
    cases List.mem_singleton.mp member
    exact .inr (.inr ⟨healthy trivial, by simp⟩)
  | done now =>
    cases made
    refine .inr (.inl ⟨some row, ?_⟩)
    rw [compared] at member
    rw [verdict]
    split at member <;> cases List.mem_singleton.mp member <;> simp_all [Traced]
  | _ => cases made

/-- What a task leaves is traced and justified, with the lookup that it made itself. -/
theorem traced_performed {tables : Tables} {outcome : Outcome} {task : Task} {effect : Effect Tables Task Reply} {i : Nat}
    (healthy : Fails (.run i outcome) → faulty) (traced : Traced faulty events task)
    (done : Performed lib tables outcome task effect) :
    (∀ new ∈ effect.tasks, Traced faulty (events ++ [found lib.db tables task outcome]) new) ∧
      ∀ number login response, (⟨number, .login login⟩, response) ∈ effect.answers →
        Justified lib faulty (events ++ [found lib.db tables task outcome]) number login response := by
  cases done with
  | @hash own user api hash made => cases hash <;> cases api <;> simp [Reaction.effect, hashed, respond, Traced]
  | compare made => exact traced_compared healthy made (traced.later _)
  | call => exact traced_called (traced.later _)
  | runOnly => simp
  | @run query callback result after executed called =>
    refine ⟨fun new member => ?_, by simp⟩
    rw [List.mem_singleton.mp member]
    cases query with
    | selectActive number login =>
      cases called
      cases result with
      | ok result => simp [Traced, found, executed]
      | error message =>
        cases execute_executed executed
        exact healthy trivial
    | insertUser number user hash api => cases api <;> cases called <;> trivial
    | insertAttempt attempt => cases called
    | updateLogin userAgent uid => cases called
    | selectUsers number =>
      cases called
      trivial
    | deleteUser number id =>
      cases called
      trivial

theorem Sound.step (sound : Sound lib faulty events st) (healthy : Fails event → faulty)
    (done : step lib st event = some (next, seen)) : Sound lib faulty (events ++ [seen]) next := by
  obtain ⟨-, stepped⟩ := step_stepped done
  cases stepped with
  | request =>
    refine ⟨fun task member => ?_, fun number login response member => ?_⟩
    · rcases List.mem_append.mp member with old | new
      · exact (sound.tasks task old).later _
      · exact traced_receive _ task new
    · rcases List.mem_append.mp member with old | new
      · exact (sound.answers number login response old).later _
      · exact justified_receive new
  | run there performed =>
    obtain ⟨tasks, answers⟩ := traced_performed healthy (sound.tasks _ (List.mem_of_getElem? there)) performed
    refine ⟨fun task member => ?_, fun number login response member => ?_⟩
    · rcases mem_tasks_step member with old | new
      · exact (sound.tasks task old).later _
      · exact tasks task new
    · rcases List.mem_append.mp member with old | new
      · exact (sound.answers number login response old).later _
      · exact answers number login response new

theorem sound_run (healthy : ∀ s input, allowed s input → Fails input → faulty)
    (run : Run (step lib) allowed (opened users attempts) events st) : Sound lib faulty events st :=
  run.invariant (fun events st => Sound lib faulty events st)
    ⟨fun _ member => (by cases member), fun _ _ _ member => (by cases member)⟩
    fun _ s input _ _ sound permitted done => sound.step (healthy s input permitted) done

/-- What a lookup finds in a table. -/
def Finds (db : Database) (login : Login) (users : List Row) : Option Row → Prop
  | none => ∀ row ∈ users, db.signsIn login.username row = false
  | some row => row ∈ users ∧ db.signsIn login.username row = true

theorem found_finds {tables : Tables} {task : Task} {outcome : Outcome} {call : Call} {row : Option Row}
    (looked : found lib.db tables task outcome = some (call, row)) :
    ∃ number login, task = .run (.selectActive number login) ∧ call = ⟨number, .login login⟩ ∧
      Finds lib.db login tables.users row := by
  unfold found at looked
  split at looked
  · next number login =>
    split at looked
    · next result after executed =>
      cases looked
      refine ⟨number, login, rfl, rfl, ?_⟩
      cases execute_executed executed with
      | notFound none_active => exact none_active
      | found member active => exact ⟨member, active⟩
    · cases looked
  · cases looked

/-- A lookup was made after its request, in a state that the run reached. -/
theorem looked_up (run : Run (step lib) allowed (opened users attempts) events st) {number : Nat} {login : Login}
    {row : Option Row} (looked : some (⟨number, .login login⟩, row) ∈ events) :
    ∃ before after s, events = before ++ some (⟨number, .login login⟩, row) :: after ∧
      Run (step lib) allowed (opened users attempts) before s ∧ ⟨number, .login login⟩ ∈ s.calls ∧
      Finds lib.db login s.server.state.users row := by
  obtain ⟨before, after, split⟩ := List.append_of_mem looked
  obtain ⟨s, input, t, earlier, -, now⟩ := run.at_event split
  refine ⟨before, after, s, split, earlier, ?_⟩
  obtain ⟨-, stepped⟩ := step_stepped now
  generalize seen_now : some ((⟨number, .login login⟩ : Call), row) = seen at stepped
  cases stepped with
  | request => cases seen_now
  | run there =>
    obtain ⟨own, request, rfl, same, finds⟩ := found_finds seen_now.symm
    cases same
    exact ⟨(balanced_run earlier).owed (List.mem_of_getElem? there) (List.mem_singleton_self _), finds⟩

/-- A login succeeds only if, at one moment after its request, the table had an active
    row of its name whose hash accepts its passphrase. -/
theorem login_sound (run : Run (step lib) allowed (opened users attempts) events st) {number : Nat} {login : Login}
    {response : Response} (answered : (⟨number, .login login⟩, response) ∈ st.server.answers)
    (succeeded : response.status = 200) :
    ∃ row before after s, events = before ++ some (⟨number, .login login⟩, some row) :: after ∧
      Run (step lib) allowed (opened users attempts) before s ∧ ⟨number, .login login⟩ ∈ s.calls ∧
      row ∈ s.server.state.users ∧ lib.db.signsIn login.username row = true ∧
      lib.bcrypt.accepts login.passphrase row.passphrase = true ∧ response = welcome row := by
  have sound : Sound lib True events st := sound_run (fun _ _ _ _ => trivial) run
  rcases sound.answers number login response answered with rfl | ⟨found, looked, decided⟩ | ⟨-, refused⟩
  · cases succeeded
  · cases found with
    | none =>
      rw [decided] at succeeded
      cases succeeded
    | some row =>
      obtain ⟨before, after, s, split, earlier, asked, member, active⟩ := looked_up run looked
      rw [verdict] at decided
      split at decided
      · next accepted => exact ⟨row, before, after, s, split, earlier, asked, member, active, accepted, decided⟩
      · rw [decided] at succeeded
        cases succeeded
  · exact absurd succeeded refused

def annLogin : Login := ⟨some (.str (lit "ann")), some (.str (lit "secret")), some (lit "::1"), lit "Unknown"⟩

def annRow : Row where
  uid := 1
  username := .str (lit "ann")
  passphrase := .str (lit "$2b$10$N9qo8uLOickgx2ZMRZoMyesecret")
  role := .str (lit "user")
  status := .str (lit "active")
  loginTimestamp := .null
  deviceInfo := .null

theorem answered_visited : (⟨1, .login annLogin⟩, welcome annRow) ∈ visited.server.answers :=
  List.mem_cons_of_mem _ (List.mem_singleton_self _)

theorem login_sound_visited : ∃ row before after s, ∃ events : List (Option (Call × Option Row)),
    events = before ++ some (⟨1, .login annLogin⟩, some row) :: after ∧
      Run (step plain) (fun _ event => ¬ Fails event) (opened [] []) before s ∧ ⟨1, .login annLogin⟩ ∈ s.calls ∧
      row ∈ s.server.state.users ∧ plainDatabase.signsIn annLogin.username row = true ∧
      plainBcrypt.accepts annLogin.passphrase row.passphrase = true ∧ welcome annRow = welcome row := by
  obtain ⟨events, run⟩ := run_visited
  obtain ⟨row, before, after, s, rest⟩ := login_sound run answered_visited rfl
  exact ⟨row, before, after, s, events, rest⟩

/-- If no call fails, a login gets the answer that the table gives at one moment after
    its request, whatever else runs in between. -/
theorem login_decided (run : Run (step lib) (fun _ event => ¬ Fails event) (opened users attempts) events st) {number : Nat}
    {login : Login} {response : Response} (answered : (⟨number, .login login⟩, response) ∈ st.server.answers) :
    response = { status := 400, body := failure (lit "Missing username or password") } ∨
      ∃ row before after s, events = before ++ some (⟨number, .login login⟩, row) :: after ∧
        Run (step lib) (fun _ event => ¬ Fails event) (opened users attempts) before s ∧
        ⟨number, .login login⟩ ∈ s.calls ∧ Finds lib.db login s.server.state.users row ∧
        response = verdict lib login row := by
  have sound : Sound lib False events st := sound_run (fun _ _ permitted fails => permitted fails) run
  rcases sound.answers number login response answered with missing | ⟨row, looked, decided⟩ | ⟨fault, -⟩
  · exact .inl missing
  · obtain ⟨before, after, s, split, earlier, asked, finds⟩ := looked_up run looked
    exact .inr ⟨row, before, after, s, split, earlier, asked, finds, decided⟩
  · exact fault.elim

theorem login_decided_visited :
    welcome annRow = { status := 400, body := failure (lit "Missing username or password") } ∨
      ∃ row before after s, ∃ events : List (Option (Call × Option Row)),
        events = before ++ some (⟨1, .login annLogin⟩, row) :: after ∧
          Run (step plain) (fun _ event => ¬ Fails event) (opened [] []) before s ∧ ⟨1, .login annLogin⟩ ∈ s.calls ∧
          Finds plainDatabase annLogin s.server.state.users row ∧ welcome annRow = verdict plain annLogin row := by
  obtain ⟨events, run⟩ := run_visited
  rcases login_decided run answered_visited with missing | ⟨row, before, after, s, rest⟩
  · exact .inl missing
  · exact .inr ⟨row, before, after, s, events, rest⟩

theorem calls_step (done : step lib st event = some (next, seen)) : ∃ more, next.calls = st.calls ++ more := by
  obtain ⟨-, stepped⟩ := step_stepped done
  cases stepped with
  | request => exact ⟨_, rfl⟩
  | run => exact ⟨[], (List.append_nil _).symm⟩

/-- A row that a lookup has found is one of the accounts, and active. -/
theorem looked_registered (run : Run (step lib) allowed (opened users attempts) events st) {number : Nat} {login : Login}
    {row : Row} (looked : some (⟨number, .login login⟩, some row) ∈ events) :
    ((∃ old ∈ users, Row.account row = Row.account old) ∨ Registered lib st.calls row) ∧
      lib.db.signsIn login.username row = true := by
  revert looked
  refine (run.invariant (fun events st => Accounted lib users st ∧
    (some (⟨number, .login login⟩, some row) ∈ events →
      ((∃ old ∈ users, Row.account row = Row.account old) ∨ Registered lib st.calls row) ∧
        lib.db.signsIn login.username row = true))
    ⟨accounted_opened lib users attempts, nofun⟩ ?_).2
  rintro earlier s input t seen ⟨accounted, before⟩ - done
  refine ⟨accounted.step done, fun looked => ?_⟩
  obtain ⟨more, grown⟩ := calls_step done
  rw [grown]
  rcases List.mem_append.mp looked with old | new
  · exact (before old).imp_left (·.imp_right (·.more more))
  · obtain ⟨-, stepped⟩ := step_stepped done
    rw [List.mem_singleton] at new
    subst new
    generalize seen_now : some ((⟨number, .login login⟩ : Call), some row) = seen at stepped
    cases stepped with
    | request => cases seen_now
    | run there =>
      obtain ⟨own, request, rfl, same, member, active⟩ := found_finds seen_now.symm
      cases same
      exact ⟨(accounted.rows row member).imp_right (·.more more), active⟩

/-- With no accounts to start with, and a column that keeps a hash as it is, a login
    succeeds only if a request registered its name, with a passphrase whose hash accepts
    the one given. -/
theorem login_registered (keeps : ∀ hash, lib.db.stored .passphrase (some (.str hash)) = .str hash)
    (run : Run (step lib) allowed (opened [] attempts) events st) {number : Nat} {login : Login} {response : Response}
    (answered : (⟨number, .login login⟩, response) ∈ st.server.answers) (succeeded : response.status = 200) :
    ∃ call ∈ st.calls, ∃ user passphrase salt, (call.request = .register user ∨ call.request = .addUser user) ∧
      user.passphrase = some (.str passphrase) ∧
      lib.db.same .username (lib.db.stored .username user.username) login.username = true ∧
      lib.db.same .status (lib.db.stored .status user.status) active = true ∧
      lib.bcrypt.accepts login.passphrase (.str (lib.bcrypt.hash salt passphrase)) = true := by
  have sound : Sound lib True events st := sound_run (fun _ _ _ _ => trivial) run
  rcases sound.answers number login response answered with rfl | ⟨found, looked, decided⟩ | ⟨-, refused⟩
  · cases succeeded
  · cases found with
    | none =>
      rw [decided] at succeeded
      cases succeeded
    | some row =>
      obtain ⟨account, active⟩ := looked_registered run looked
      rcases account with ⟨old, member, -⟩ | ⟨call, asked, user, passphrase, salt, request, text, name, hash, -, status⟩
      · cases member
      · rw [Database.signsIn, Bool.and_eq_true, name, status] at active
        rw [verdict, hash, keeps] at decided
        split at decided
        · next accepted => exact ⟨call, asked, user, passphrase, salt, request, text, active.1, active.2, accepted⟩
        · rw [decided] at succeeded
          cases succeeded
  · exact absurd succeeded refused

theorem login_registered_visited : ∃ call ∈ visited.calls, ∃ user passphrase salt,
    (call.request = .register user ∨ call.request = .addUser user) ∧ user.passphrase = some (.str passphrase) ∧
      plainDatabase.same .username (plainDatabase.stored .username user.username) annLogin.username = true ∧
      plainDatabase.same .status (plainDatabase.stored .status user.status) active = true ∧
      plainBcrypt.accepts annLogin.passphrase (.str (plainBcrypt.hash salt passphrase)) = true :=
  have ⟨_, run⟩ := run_visited
  login_registered (fun _ => rfl) run answered_visited rfl

/-! ### Deleted accounts -/

def Gone (db : Database) (id : Str) (users : List Row) : Prop := ∀ row ∈ users, db.keyed (some (.str id)) row = false

/-- A new row gets the key. -/
def Gives (db : Database) (id : Str) : Event → Prop
  | .run _ (.inserted uid _) => db.same .uid (.int uid) (some (.str id)) = true
  | _ => False

instance (db : Database) (id : Str) : DecidablePred (Gives db id)
  | .run _ (.inserted uid _) => inferInstanceAs (Decidable (db.same .uid (.int uid) (some (.str id)) = true))
  | .run _ (.fails _) | .run _ (.salted _) | .run _ (.chosen _) | .run _ (.done _) | .request _ => isFalse not_false

/-- The row has been deleted, and the callback is due. -/
def Deleting (id : Str) : Task → Prop
  | .call (.deleted _ own) (.ok _) => own = id
  | _ => False

def Deleted (id : Str) : Reply → Prop
  | (⟨_, .deleteUser own⟩, response) => own = id ∧ response.status = 200
  | _ => False

theorem keyed_signedIn (db : Database) (key : Option Json) (userAgent : Str) (uid : Int) (now : Str) (row : Row) :
    db.keyed key (db.signedIn userAgent uid now row) = db.keyed key row := by
  rw [Database.signedIn]
  split <;> rfl

theorem gone_executed {db : Database} {id : Str} {tables after : Tables} {query : Query} {outcome : Outcome} {i : Nat}
    {result : Except Str Result} (gone : Gone db id tables.users) (other : ¬ Gives db id (.run i outcome))
    (executed : Executed db tables query outcome result after) : Gone db id after.users := by
  intro row member
  cases executed with
  | insertUser =>
    rcases List.mem_append.mp member with old | new
    · exact gone row old
    · rw [List.mem_singleton.mp new]
      exact Bool.eq_false_iff.mpr other
  | updateLogin =>
    obtain ⟨old, there, rfl⟩ := List.mem_map.mp member
    exact (keyed_signedIn ..).trans (gone old there)
  | deleteUser => exact gone row (List.mem_filter.mp member).1
  | _ => exact gone row member

theorem Deleting.calls {id : Str} {task : Task} (deleting : Deleting id task) : task.Calls := by
  cases task with
  | call => trivial
  | _ => exact deleting.elim

theorem not_deleted_receive {id : Str} (call : Call) : ∀ reply ∈ (receive call).answers, ¬ Deleted id reply := by
  have received := receive_received call
  generalize receive call = reaction at received ⊢
  intro reply member deleted
  cases received with
  | @refused number request =>
    cases List.mem_singleton.mp member
    cases request with
    | deleteUser id => cases deleted.2
    | _ => exact deleted.elim
  | logout =>
    cases List.mem_singleton.mp member
    exact deleted.elim
  | _ => cases member

/-- What shows that a deletion has been executed comes from its statement or its callback. -/
theorem deleted_performed {id : Str} {tables : Tables} {outcome : Outcome} {task : Task} {effect : Effect Tables Task Reply}
    (done : Performed lib tables outcome task effect)
    (shown : (∃ new ∈ effect.tasks, Deleting id new) ∨ ∃ reply ∈ effect.answers, Deleted id reply) :
    Deleting id task ∨ Gone lib.db id effect.state.users := by
  rcases shown with ⟨new, member, deleting⟩ | ⟨⟨⟨number, request⟩, response⟩, member, deleted⟩
  · cases done with
    | hash => exact absurd deleting.calls (hashed_calls _ _ _ _ new member)
    | compare => exact absurd deleting.calls (compared_calls _ _ _ _ new member)
    | call => exact absurd deleting.calls (called_calls _ _ new member)
    | runOnly => cases member
    | @run query callback result after executed called =>
      cases List.mem_singleton.mp member
      cases query with
      | deleteUser number own =>
        cases called
        cases execute_executed executed with
        | fails => exact deleting.elim
        | deleteUser =>
          cases deleting
          refine .inr fun row member => ?_
          simpa using (List.mem_filter.mp member).2
      | insertUser number user hash api => cases api <;> cases called <;> exact deleting.elim
      | insertAttempt attempt => cases called
      | updateLogin userAgent uid => cases called
      | selectActive number login =>
        cases called
        exact deleting.elim
      | selectUsers number =>
        cases called
        exact deleting.elim
  · have owed := reply_performed done member
    cases done with
    | @hash _ _ api =>
      cases List.mem_singleton.mp owed
      cases api <;> exact deleted.elim
    | compare =>
      cases List.mem_singleton.mp owed
      exact deleted.elim
    | run => cases member
    | runOnly => cases member
    | @call callback result =>
      have same := List.mem_singleton.mp owed
      cases callback with
      | deleted own key =>
        cases same
        cases result with
        | error message =>
          cases List.mem_singleton.mp member
          cases deleted.2
        | ok result => exact .inl deleted.1
      | _ =>
        cases same
        exact deleted.elim

theorem gone_performed {id : Str} {tables : Tables} {outcome : Outcome} {task : Task}
    {effect : Effect Tables Task Reply} {i : Nat}
    (gone : Gone lib.db id tables.users) (other : ¬ Gives lib.db id (.run i outcome))
    (done : Performed lib tables outcome task effect) : Gone lib.db id effect.state.users := by
  cases done with
  | run executed => exact gone_executed gone other (execute_executed executed)
  | runOnly executed => exact fun row => gone_executed gone other (execute_executed executed) row
  | _ => exact gone

/-- Once a deletion was answered with success, no account has its key, unless a new one
    was given it. -/
theorem deleted_gone {id : Str}
    (run : Run (step lib) (fun _ event => ¬ Gives lib.db id event) (opened users attempts) events st) {number : Nat}
    {response : Response} (answered : (⟨number, .deleteUser id⟩, response) ∈ st.server.answers)
    (succeeded : response.status = 200) : Gone lib.db id st.server.state.users := by
  suffices (∃ task ∈ st.server.tasks, Deleting id task) ∨ (∃ reply ∈ st.server.answers, Deleted id reply) →
      Gone lib.db id st.server.state.users from this (.inr ⟨_, answered, rfl, succeeded⟩)
  refine run.invariant (fun _ st => (∃ task ∈ st.server.tasks, Deleting id task) ∨
    (∃ reply ∈ st.server.answers, Deleted id reply) → Gone lib.db id st.server.state.users) ?_ ?_
  · rintro (⟨task, member, -⟩ | ⟨reply, member, -⟩) <;> cases member
  rintro earlier s input t seen before other done shown
  obtain ⟨-, stepped⟩ := step_stepped done
  cases stepped with
  | @request request =>
    refine before ?_
    rcases shown with ⟨task, member, deleting⟩ | ⟨reply, member, deleted⟩
    · rcases List.mem_append.mp member with old | new
      · exact .inl ⟨task, old, deleting⟩
      · exact absurd deleting.calls (receive_calls _ task new)
    · rcases List.mem_append.mp member with old | new
      · exact .inr ⟨reply, old, deleted⟩
      · exact absurd deleted (not_deleted_receive _ reply new)
  | @run i outcome task effect there performed =>
    have old_task := List.mem_of_getElem? there
    rcases shown with ⟨new, member, deleting⟩ | ⟨reply, member, deleted⟩
    · rcases mem_tasks_step member with old | own
      · exact gone_performed (before (.inl ⟨new, old, deleting⟩)) other performed
      · rcases deleted_performed performed (.inl ⟨new, own, deleting⟩) with due | gone
        · exact gone_performed (before (.inl ⟨task, old_task, due⟩)) other performed
        · exact gone
    · rcases List.mem_append.mp member with old | own
      · exact gone_performed (before (.inr ⟨reply, old, deleted⟩)) other performed
      · rcases deleted_performed performed (.inr ⟨reply, own, deleted⟩) with due | gone
        · exact gone_performed (before (.inl ⟨task, old_task, due⟩)) other performed
        · exact gone

/-- The administrator deletes the account while its user signs in. -/
def removal : List Event :=
  [.request (loginRequest ann localhost), .run 0 (.chosen 0), .request (.deleteUser (lit "1")), .run 1 (.done noon),
    .run 0 (.done noon), .run 0 (.done noon)]

theorem deleted_gone_removal :
    Gone plainDatabase (lit "1") (reached (step plain) (fun _ event => decide (¬ Gives plainDatabase (lit "1") event))
      (opened [annRow] []) removal).server.state.users := by
  have ⟨_, run⟩ : ∃ events, Run (step plain) (fun _ event => ¬ Gives plain.db (lit "1") event) (opened [annRow] []) events
      (reached (step plain) (fun _ event => decide (¬ Gives plain.db (lit "1") event)) (opened [annRow] []) removal) :=
    run_reached (by decide +kernel)
  exact deleted_gone run (show ((⟨1, .deleteUser (lit "1")⟩, { status := 200, body := .obj [(lit "success", .bool true)] }) :
    Reply) ∈ _ from List.mem_singleton_self _) rfl

end Hde.Logins
