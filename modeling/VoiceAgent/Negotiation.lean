import VoiceAgent.Gateway

/-!
The negotiation loop of the gateway. Until the bot is started every message is answered, and
those that start nothing are counted: the updates in one counter, all others in another. What
the server does about an update may raise, the resolution of a voice included.
-/
namespace VoiceAgent.Negotiation

open JsonValues SessionView Gateway

section Environment

/-- `parse_env_int`; `int` is Python's conversion of a text. -/
def parseEnvInt (int : String → Option ℤ) (raw : Option String) (default : ℤ)
    (minValue : Option ℤ) : ℤ :=
  let value := (raw.bind int).getD default
  match minValue with
  | some least => if value < least then least else value
  | none => value

/-- `REALTIME_MAX_REJECTED_EVENTS` -/
def maxRejected (int : String → Option ℤ) (raw : Option String) : ℕ :=
  (parseEnvInt int raw 32 (some 1)).toNat

theorem one_le_maxRejected (int : String → Option ℤ) (raw : Option String) :
    1 ≤ maxRejected int raw := by
  have hleast : (1 : ℤ) ≤ parseEnvInt int raw 32 (some 1) := by
    unfold parseEnvInt
    dsimp only
    split <;> omega
  unfold maxRejected
  omega

end Environment

section Loop

/-- `json.loads`: a value, a `JSONDecodeError` or another exception. -/
inductive Loaded
  | value (json : Json)
  | malformed
  | raised

inductive Received
  | timeout
  | disconnected
  | text (loaded : Loaded)

/-- The text of an error; the one of an exception is that of what raised it. -/
inductive Message
  | text (text : String)
  | invalid (why : Invalid)
  | applyFailed
  deriving DecidableEq

inductive Event
  | error (message : Message) (code : String) (eventId param : Option String)
  | updated (session : Fields)
  deriving DecidableEq

def Event.isError : Event → Bool
  | .error .. => true
  | .updated _ => false

inductive Ending
  | timeout
  | disconnected
  | raised
  | tooManyRejected
  | tooManyFailedUpdates
  | started (config : Fields)
  deriving DecidableEq

/-- The counters are those of `handle_realtime_websocket`. -/
inductive Gate
  | negotiating (session : RealtimeSession) (rejected failedUpdates : ℕ)
  | ended (session : RealtimeSession) (how : Ending)
  deriving DecidableEq

def Gate.session : Gate → RealtimeSession
  | .negotiating s _ _ => s
  | .ended s _ => s

/-- A message, the server it comes to, and whether the answer can be sent. -/
structure Turn where
  callbacks : Callbacks
  received : Received
  sends : Bool := true

def answerEvent (eventId : Option String) : Answer → Event
  | .invalid why => .error (.invalid why) "invalid_session" eventId (some "session")
  | .refused why => .error (.text why) "invalid_session" eventId (some "session")
  | .noSession => .error (.text "session.update requires a session object") "invalid_session"
      eventId (some "session")
  | .updateFailed => .error .applyFailed "session_update_failed" eventId none
  | .notReady why => .error (.text why) "services_not_ready" eventId none
  | .updated session => .updated session

/-- `client_event_id`, if it is a string; `error_event` leaves an empty one out. -/
def echoId (message : Fields) : Option String :=
  match message.get? "event_id" with
  | some (.str id) => if id = "" then none else some id
  | _ => none

variable (most : ℕ)

/-- `_reject` -/
def reject (s : RealtimeSession) (rejected failedUpdates : ℕ) (e : Event) :
    Gate × Option Event :=
  (if most ≤ rejected + 1 then .ended s .tooManyRejected
    else .negotiating s (rejected + 1) failedUpdates, some e)

/-- A `session.update`. -/
def update (C : Callbacks) (s : RealtimeSession) (rejected failedUpdates : ℕ)
    (message : Fields) : Gate × Option Event :=
  let handled := handleUpdate C s (message.get? "session")
  let next := match handled.2.2 with
    | some config => .ended handled.1 (.started config)
    | none =>
      if most ≤ failedUpdates + 1 then .ended handled.1 .tooManyFailedUpdates
      else .negotiating handled.1 rejected (failedUpdates + 1)
  (next, some (answerEvent (echoId message) handled.2.1))

def receiveText (C : Callbacks) (s : RealtimeSession) (rejected failedUpdates : ℕ) :
    Loaded → Gate × Option Event
  | .raised => (.ended s .raised, none)
  | .malformed => reject most s rejected failedUpdates
      (.error (.text "Invalid JSON") "invalid_json" none none)
  | .value (.obj message) =>
    match message.get? "type" with
    | some (.str type) =>
      if type = "" then reject most s rejected failedUpdates
        (.error (.text "Missing event type") "missing_type" (echoId message) none)
      else if type = "session.update" then update most C s rejected failedUpdates message
      else reject most s rejected failedUpdates
        (.error (.text ("Event type '" ++ type ++
          "' is not supported before session.update handoff")) "unsupported_event"
          (echoId message) (some "type"))
    | _ => reject most s rejected failedUpdates
        (.error (.text "Missing event type") "missing_type" (echoId message) none)
  | .value _ => reject most s rejected failedUpdates
      (.error (.text "Event must be a JSON object") "invalid_event" none none)

/-- One round of the loop. An answer that cannot be sent ends it. -/
def step (t : Turn) : Gate → Gate × Option Event
  | .ended s how => (.ended s how, none)
  | .negotiating s rejected failedUpdates =>
    match t.received with
    | .timeout => (.ended s .timeout, none)
    | .disconnected => (.ended s .disconnected, none)
    | .text loaded =>
      let next := receiveText most t.callbacks s rejected failedUpdates loaded
      if t.sends then next else (.ended next.1.session .disconnected, none)

def run (gate : Gate) (turns : List Turn) : Gate :=
  turns.foldl (fun gate t => (step most t gate).1) gate

variable {most} {s : RealtimeSession} {rejected failedUpdates : ℕ} {C : Callbacks} {e : Event}

theorem reject_session : (reject most s rejected failedUpdates e).1.session = s := by
  unfold reject
  dsimp only
  split <;> rfl

theorem answerEvent_isError {eventId : Option String} {answer : Answer}
    (h : (answerEvent eventId answer).isError = true) : answer.session = none := by
  cases answer <;> first | rfl | cases h

theorem update_session {message : Fields}
    (h : ∀ e ∈ (update most C s rejected failedUpdates message).2, e.isError = true) :
    (update most C s rejected failedUpdates message).1.session = s := by
  have hsame : (handleUpdate C s (message.get? "session")).1 = s :=
    handleUpdate_session (answerEvent_isError (h _ rfl))
  unfold update
  dsimp only
  split
  · exact hsame
  · split <;> exact hsame

theorem receiveText_session {loaded : Loaded}
    (h : ∀ e ∈ (receiveText most C s rejected failedUpdates loaded).2, e.isError = true) :
    (receiveText most C s rejected failedUpdates loaded).1.session = s := by
  cases loaded with
  | raised => rfl
  | malformed => exact reject_session
  | value json =>
    cases json with
    | obj message =>
      unfold receiveText at h ⊢
      dsimp only at h ⊢
      split
      · rename_i type htype
        rw [htype] at h
        dsimp only at h
        by_cases hempty : type = ""
        · rw [if_pos hempty]
          exact reject_session
        · rw [if_neg hempty] at h ⊢
          by_cases hupdate : type = "session.update"
          · rw [if_pos hupdate] at h ⊢
            exact update_session h
          · rw [if_neg hupdate]
            exact reject_session
      · exact reject_session
    | _ => exact reject_session

/-- A round that answers with an error leaves the session as it was. -/
theorem step_session {t : Turn} {gate : Gate} (h : (step most t gate).2 = some e)
    (he : e.isError = true) : (step most t gate).1.session = gate.session := by
  cases gate with
  | ended s how => cases h
  | negotiating s rejected failedUpdates =>
    unfold step at h ⊢
    dsimp only at h ⊢
    cases hreceived : t.received with
    | timeout => rfl
    | disconnected => rfl
    | text loaded =>
      rw [hreceived] at h
      dsimp only at h ⊢
      cases hsends : t.sends with
      | false =>
        rw [hsends, if_neg (by simp)] at h
        cases h
      | true =>
        rw [hsends, if_pos rfl] at h
        rw [if_pos rfl]
        refine receiveText_session fun e' he' => ?_
        rw [h] at he'
        cases he'
        exact he

/-- While the loop goes on, both counters are below the bound and all rounds are counted. -/
def Counted (most rounds : ℕ) : Gate → Prop
  | .negotiating _ rejected failedUpdates =>
    rejected < most ∧ failedUpdates < most ∧ rejected + failedUpdates = rounds
  | .ended _ _ => True

theorem counted_reject {rounds : ℕ}
    (h : Counted most rounds (.negotiating s rejected failedUpdates)) :
    Counted most (rounds + 1) (reject most s rejected failedUpdates e).1 := by
  obtain ⟨hrejected, hfailed, hrounds⟩ := h
  unfold reject
  dsimp only
  split
  · trivial
  · exact ⟨by omega, hfailed, by omega⟩

theorem counted_update {rounds : ℕ} {message : Fields}
    (h : Counted most rounds (.negotiating s rejected failedUpdates)) :
    Counted most (rounds + 1) (update most C s rejected failedUpdates message).1 := by
  obtain ⟨hrejected, hfailed, hrounds⟩ := h
  unfold update
  dsimp only
  split
  · trivial
  · split
    · trivial
    · exact ⟨hrejected, by omega, by omega⟩

theorem counted_step {rounds : ℕ} {gate : Gate} (h : Counted most rounds gate) (t : Turn) :
    Counted most (rounds + 1) (step most t gate).1 := by
  cases gate with
  | ended s how => trivial
  | negotiating s rejected failedUpdates =>
    unfold step
    dsimp only
    split
    · trivial
    · trivial
    · rename_i loaded hreceived
      cases t.sends with
      | false => trivial
      | true =>
        rw [if_pos rfl]
        unfold receiveText
        split
        · trivial
        · exact counted_reject h
        · split
          · split
            · exact counted_reject h
            · split
              · exact counted_update h
              · exact counted_reject h
          · exact counted_reject h
        · exact counted_reject h

theorem counted_run {rounds : ℕ} {gate : Gate} (h : Counted most rounds gate)
    (turns : List Turn) : Counted most (rounds + turns.length) (run most gate turns) := by
  induction turns generalizing rounds gate with
  | nil => exact h
  | cons t rest ih =>
    have hrest := ih (counted_step h t)
    rw [Nat.add_right_comm] at hrest
    exact hrest

/-- A message that is answered with an error leaves the session as it was, and of messages that
do not start the bot the loop reads at most one fewer than twice the bound. -/
theorem negotiation (int : String → Option ℤ) (raw : Option String) (s : RealtimeSession)
    (turns : List Turn) :
    (∀ before t after, turns = before ++ t :: after →
      ∀ e, (step (maxRejected int raw) t
          (run (maxRejected int raw) (.negotiating s 0 0) before)).2 = some e →
        e.isError = true →
        (run (maxRejected int raw) (.negotiating s 0 0) (before ++ [t])).session =
          (run (maxRejected int raw) (.negotiating s 0 0) before).session) ∧
    (2 * maxRejected int raw - 1 ≤ turns.length →
      ∃ session how, run (maxRejected int raw) (.negotiating s 0 0) turns =
        .ended session how) := by
  constructor
  · intro before t after _ e hsent herror
    have hrun : run (maxRejected int raw) (.negotiating s 0 0) (before ++ [t]) =
        (step (maxRejected int raw) t
          (run (maxRejected int raw) (.negotiating s 0 0) before)).1 := by
      unfold run
      rw [List.foldl_append]
      rfl
    rw [hrun]
    exact step_session hsent herror
  · intro hlong
    have hmost := one_le_maxRejected int raw
    have hstart : Counted (maxRejected int raw) 0 (.negotiating s 0 0) := ⟨hmost, hmost, rfl⟩
    have hcounted := counted_run hstart turns
    cases hrun : run (maxRejected int raw) (.negotiating s 0 0) turns with
    | ended session how => exact ⟨session, how, rfl⟩
    | negotiating session rejected failedUpdates =>
      rw [hrun] at hcounted
      obtain ⟨hrejected, hfailed, hrounds⟩ := hcounted
      omega

/-- A server that refuses every configuration. -/
def refusing : Callbacks where
  str := fun _ => ""
  lower := id
  upper := id
  int := fun _ => .refused
  float := fun _ => .refused
  isInteger := fun _ => false
  negative := fun _ => false
  defaultTts := .nil
  ttsConfig := fun _ _ _ _ => .nil
  defaultPipelineMode := "cascaded"
  sanitize := fun _ => .error (.refused "unknown pipeline")
  serverTools := none
  ready := none
  startsBot := true
  maxRejected := 2
  resolveVoice := fun config _ _ => .ok (none, config)

def freshSession : RealtimeSession := .fresh "sess_1" "cascaded"

def plainUpdate : Json :=
  .obj (.cons "type" (.str "session.update") (.cons "session" (.obj .nil) .nil))

/-- A malformed message, an update that is refused and a second malformed message. -/
def refusedTurns : List Turn :=
  [{ callbacks := refusing, received := .text .malformed },
    { callbacks := refusing, received := .text (.value plainUpdate) },
    { callbacks := refusing, received := .text .malformed }]

theorem negotiation_refused :
    (run (maxRejected (fun _ => some 2) (some "2")) (.negotiating freshSession 0 0)
        ([{ callbacks := refusing, received := .text .malformed }] ++
          [{ callbacks := refusing, received := .text (.value plainUpdate) }])).session =
      (run (maxRejected (fun _ => some 2) (some "2")) (.negotiating freshSession 0 0)
        [{ callbacks := refusing, received := .text .malformed }]).session ∧
    ∃ session how, run (maxRejected (fun _ => some 2) (some "2"))
      (.negotiating freshSession 0 0) refusedTurns = .ended session how :=
  ⟨(negotiation (fun _ => some 2) (some "2") freshSession refusedTurns).1
      [{ callbacks := refusing, received := .text .malformed }]
      { callbacks := refusing, received := .text (.value plainUpdate) }
      [{ callbacks := refusing, received := .text .malformed }] rfl
      (.error (.text "unknown pipeline") "invalid_session" none (some "session"))
      (by decide +kernel) rfl,
    (negotiation (fun _ => some 2) (some "2") freshSession refusedTurns).2 (by decide)⟩

end Loop

end VoiceAgent.Negotiation
