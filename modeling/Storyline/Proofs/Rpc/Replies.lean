import Storyline.Proofs.Rpc.Frames
import Storyline.Proofs.Rpc.SessionIds
import Storyline.Proofs.Session.Upkeep

/-!
# One reply for each request

What a message is owed is seen from the message alone (`Owed`): a request with a method and an id is
owed one reply with its id, a payload that is no message one with the id `null`, and everything else
nothing.  Each step of a server gives just that, however its handler ends (`owed_receive`), so that
a server writes, in the order of the messages, what each of them is owed.

What comes of a request, and what that does to the sessions that a server knows, is said by `Keeps`:
an opening goes well exactly if the project can be opened, and then it tells an id that nobody had
and by which the session is known from then on; a closing goes well exactly if it names a session
that is known, and then that one is not any more.  So the sessions that are known at any time are
seen from what went well before (`Turn`): a session is known from the opening that told its id, up
to a closing that names it or to a shutdown.

Where ids come from does not matter as long as new ones are new and are read as they are spelled
(`SessionIds.Sound`).  A server takes at most one id for each message, so that it relies on no more
ids than there are messages (`Numbered`).
-/

namespace Storyline.Rpc

open Outline (Fuzzy)

/-! ## What is owed -/

/-- A reply to a request with an id: its result, or what went wrong. -/
inductive RepliesTo (id : Json) : Json → Prop where
  | result (result : Json) : RepliesTo id (resultReply id result)
  | failure (code : Int) (message : Bytes) : RepliesTo id (failureReply id code message)

/-- The replies that a payload is owed. -/
def Owed (payload : Bytes) (replies : List Json) : Prop :=
  match Request.read payload with
  | .error _ => replies = [failureReply .null (-32700) "parse error"]
  | .ok r =>
    match r.id with
    | some id =>
      if r.method = [] then replies = [] else ∃ reply, RepliesTo id reply ∧ replies = [reply]
    | none => replies = []

/-- Whether a payload asks the server to end. -/
def asksToExit (payload : Bytes) : Bool :=
  match Request.read payload with
  | .error _ => false
  | .ok r => r.method = ("exit" : Bytes)

theorem method_ne_exit {payload : Bytes} {r : Request} (hread : Request.read payload = .ok r)
    (h : asksToExit payload = false) : r.method ≠ ("exit" : Bytes) := by
  rw [asksToExit, hread] at h
  exact of_decide_eq_false h

/-- The reply to a request with an id, by what came of it. -/
def replyTo (id : Json) : Except Failure Json → Json
  | .ok result => resultReply id result
  | .error f => failureReply id f.code f.message

theorem repliesTo_replyTo (id : Json) (x : Except Failure Json) : RepliesTo id (replyTo id x) := by
  cases x with
  | ok result => exact .result result
  | error f => exact .failure f.code f.message

namespace Server

/-- What a request without an id, or with one, is owed for whatever its handler gives. -/
theorem settle_eq (h : Handled) (r : Request) (marks : List Trace.Mark) :
    (settle h r marks).ending = none ∧ (settle h r marks).server = h.server
      ∧ (settle h r marks).reply = r.id.map (replyTo · h.outcome) := by
  rw [settle]
  cases r.id with
  | none =>
    cases h.outcome with
    | ok result => exact ⟨rfl, rfl, rfl⟩
    | error f => exact ⟨rfl, rfl, rfl⟩
  | some id =>
    cases h.outcome with
    | ok result => exact ⟨rfl, rfl, rfl⟩
    | error f => exact ⟨rfl, rfl, rfl⟩

section Answers

variable [SessionIds] [Fuzzy] {s : Server} {opener? : Option Opener} {payload : Bytes} {r : Request}

/-- What comes of a request, and the server after it.  One whose method nobody knows fails. -/
def outcome (s : Server) (opener? : Option Opener) (r : Request) : Except Failure Json × Server :=
  match s.handle? opener? r with
  | some h => (h.outcome, h.server)
  | none => (.error (.unknownMethod r.method), s)

theorem answer_eq (s : Server) (opener? : Option Opener) (h : r.method ≠ ("exit" : Bytes)) :
    (s.answer opener? r).ending = none
      ∧ (s.answer opener? r).server = (s.outcome opener? r).2
      ∧ (s.answer opener? r).reply = r.id.map (replyTo · (s.outcome opener? r).1) := by
  rw [answer, if_neg h, outcome]
  cases s.handle? opener? r with
  | some handled => exact settle_eq handled r _
  | none => exact ⟨rfl, rfl, rfl⟩

theorem receive_eq (hread : Request.read payload = .ok r) (hmethod : r.method ≠ []) :
    s.receive opener? payload = s.answer opener? r := by
  rw [receive, hread]
  exact if_neg fun hempty => hmethod (List.isEmpty_iff.mp hempty)

theorem owed_receive (s : Server) (opener? : Option Opener) (h : asksToExit payload = false) :
    (s.receive opener? payload).ending = none
      ∧ Owed payload (s.receive opener? payload).reply.toList := by
  rw [Owed]
  cases hread : Request.read payload with
  | error e =>
    rw [receive, hread]
    exact ⟨rfl, rfl⟩
  | ok r =>
    by_cases hmethod : r.method = []
    · simp only [receive, hread, hmethod, List.isEmpty_nil, if_true]
      cases r.id with
      | none => exact ⟨trivial, rfl⟩
      | some id => exact ⟨trivial, rfl⟩
    · obtain ⟨hending, -, hreply⟩ := answer_eq s opener? (method_ne_exit hread h)
      rw [receive_eq hread hmethod, hreply]
      refine ⟨hending, ?_⟩
      dsimp only
      cases r.id with
      | none => rfl
      | some id =>
        dsimp only
        rw [if_neg hmethod]
        exact ⟨_, repliesTo_replyTo id _, rfl⟩

/-- A message that asks the server to end is owed nothing, ends it, and leaves it as it is. -/
theorem receive_of_asksToExit (s : Server) (opener? : Option Opener)
    (h : asksToExit payload = true) :
    ∃ marks e, s.receive opener? payload = { server := s, marks, ending := some e } := by
  rw [asksToExit] at h
  rw [receive]
  cases hread : Request.read payload with
  | error e => simp [hread] at h
  | ok r =>
    have hexit : r.method = ("exit" : Bytes) := by simpa [hread] using h
    have hfull : (Bytes.ofString "exit").isEmpty = false := by decide
    simp only [hexit, hfull, Bool.false_eq_true, if_false, answer, if_true]
    exact ⟨_, _, rfl⟩

end Answers

/-! ## What is written -/

/-- What is written for some replies, each in a frame of its own. -/
def writtenAll (replies : List Json) : Bytes :=
  replies.flatMap fun reply => Frame.write (Json.lineSafe reply.compact)

theorem written_eq (reply : Option Json) : written reply = writtenAll reply.toList := by
  cases reply with
  | none => rfl
  | some reply => exact (List.flatMap_singleton _ _).symm

section Runs

variable [SessionIds] [Fuzzy]

/-- A server after it received some payloads. -/
def after (opener? : Option Opener) (s : Server) (payloads : List Bytes) : Server :=
  payloads.foldl (fun s payload => (s.receive opener? payload).server) s

theorem after_concat (opener? : Option Opener) (s : Server) (payloads : List Bytes) (p : Bytes) :
    after opener? s (payloads ++ [p]) = ((after opener? s payloads).receive opener? p).server := by
  rw [after, List.foldl_append]
  rfl

/-- A server writes what the payloads in front of the first one that asks it to end are owed: what
it replies to each of them when it has received those before. -/
theorem receiveAll_owed (opener? : Option Opener) (payloads : List Bytes) (s : Server)
    (t : Transcript) :
    let before := payloads.takeWhile fun p => !asksToExit p
    let r := receiveAll opener? Transcript.add payloads s t
    r.1 = after opener? s before ∧ ∃ groups, List.Forall₂ Owed before groups
      ∧ r.2.1.output = t.output ++ writtenAll groups.flatten
      ∧ ∀ (n : Nat) p, before[n]? = some p → groups[n]? =
          some ((after opener? s (before.take n)).receive opener? p).reply.toList := by
  -- By induction on the payloads; one that asks to exit ends the session, and all behind it go
  -- unread.
  induction payloads generalizing s t with
  | nil => exact ⟨rfl, [], .nil, (List.append_nil _).symm, fun n p hp => by simp at hp⟩
  | cons p payloads ih =>
    cases hexit : asksToExit p with
    | true =>
      obtain ⟨marks, e, hreceive⟩ := receive_of_asksToExit s opener? hexit
      simp only [receiveAll, hreceive, List.takeWhile_cons, hexit, Bool.not_true,
        Bool.false_eq_true, if_false]
      exact ⟨rfl, [], .nil, rfl, fun n p hp => by simp at hp⟩
    | false =>
      obtain ⟨hending, howed⟩ := owed_receive s opener? hexit
      simp only [receiveAll, hending, List.takeWhile_cons, hexit, Bool.not_false, if_true]
      obtain ⟨hserver, groups, hgroups, houtput, heach⟩ :=
        ih (s.receive opener? p).server (t.add (s.receive opener? p))
      refine ⟨hserver, _ :: groups, .cons howed hgroups, ?_, fun n q hq => ?_⟩
      · rw [houtput, Transcript.add, written_eq, List.flatten_cons, writtenAll, writtenAll,
          writtenAll, List.flatMap_append, List.append_assoc]
      · cases n with
        | zero =>
          obtain rfl : p = q := by simpa using hq
          rfl
        | succ n => exact heach n q hq

end Runs

/-! ## Which sessions are known -/

/-- The ids of the sessions that a server knows. -/
def known (s : Server) : List SessionId := s.sessions.map (·.1)

theorem known_update (s : Server) (id : SessionId) (session : Session) :
    (s.update id session).known = s.known := by
  rw [known, known, update, List.map_map]
  refine List.map_congr_left fun p _ => ?_
  rw [Function.comp]
  split
  · next h => exact h.symm
  · rfl

/-- The session on the project that parameters name, if that can be opened. -/
def opening? (s : Server) (opener? : Option Opener) (params : Option Json) : Option Session :=
  match readParams openShape params, opener? with
  | .ok members, some opener => (opener s.storage (members.text "root")).1.toOption
  | _, _ => none

section Ids

variable [SessionIds]

/-- The id that parameters name. -/
def named? (params : Option Json) : Option SessionId :=
  match readParams sessionShape params with
  | .error _ => none
  | .ok members => SessionIds.read? (members.text "session")

/-- The id that the result of an opening tells. -/
def told? (result : Json) : Option SessionId :=
  ((result.member? "session").bind Json.text?).bind SessionIds.read?

/-- What has come of a request has to do with the sessions that are open as it should. -/
structure Keeps (opener? : Option Opener) (s : Server) (r : Request)
    (x : Except Failure Json × Server) : Prop where
  /-- An opening goes well if the project can be opened.  It tells an id that no session has, and
  the session is known by it from then on. -/
  opened : r.method = ("session/open" : Bytes) →
    ∀ session, s.opening? opener? r.params = some session →
      ∃ result id, x.1 = .ok result ∧ told? result = some id ∧ id ∉ s.known
        ∧ x.2.sessions = (id, session) :: s.sessions
  notOpened : r.method = ("session/open" : Bytes) → s.opening? opener? r.params = none →
    (∃ f, x.1 = .error f) ∧ x.2.sessions = s.sessions
  /-- A closing goes well if it names a session that is known, and takes that one away. -/
  closed : r.method = ("session/close" : Bytes) → ∀ id ∈ s.known, named? r.params = some id →
    x.1 = .ok .null ∧ x.2.sessions = s.sessions.filter fun p => p.1 != id
  notClosed : r.method = ("session/close" : Bytes) →
    (∀ id ∈ s.known, named? r.params ≠ some id) →
      (∃ f, x.1 = .error f) ∧ x.2.sessions = s.sessions
  shutDown : r.method = ("shutdown" : Bytes) → x.1 = .ok .null ∧ x.2.sessions = []
  /-- Nothing else opens a session or closes one. -/
  other : r.method ∉ (["shutdown", "session/open", "session/close"] : List Bytes) →
    x.2.known = s.known

variable {s : Server} {opener? : Option Opener} {params : Option Json} {session : Session}
  {id : SessionId} {count : Nat}

theorem openSession_of_opening (h : s.opening? opener? params = some session) :
    ∃ tree, (s.openSession opener? params).outcome = .ok (.record [("session",
        .text (SessionIds.spell (SessionIds.new (s.opened + 1)))), ("tree", tree)])
      ∧ (s.openSession opener? params).server = { s with
          sessions := (SessionIds.new (s.opened + 1), session) :: s.sessions
          opened := s.opened + 1 } := by
  unfold opening? at h
  unfold openSession
  generalize readParams openShape params = read at h ⊢
  cases read with
  | error f => cases h
  | ok members =>
    cases opener? with
    | none => cases h
    | some opener =>
      dsimp only at h ⊢
      generalize opener s.storage (members.text "root") = r at h ⊢
      obtain ⟨outcome, marks⟩ := r
      cases outcome with
      | error f => cases h
      | ok session' =>
        obtain rfl := Option.some.inj h
        exact ⟨_, rfl, rfl⟩

theorem openSession_of_none (h : s.opening? opener? params = none) :
    (∃ f, (s.openSession opener? params).outcome = .error f)
      ∧ (s.openSession opener? params).server = s := by
  unfold opening? at h
  unfold openSession
  generalize readParams openShape params = read at h ⊢
  cases read with
  | error f => exact ⟨⟨f, rfl⟩, rfl⟩
  | ok members =>
    cases opener? with
    | none => exact ⟨⟨_, rfl⟩, rfl⟩
    | some opener =>
      dsimp only at h ⊢
      generalize opener s.storage (members.text "root") = r at h ⊢
      obtain ⟨outcome, marks⟩ := r
      cases outcome with
      | error f => exact ⟨⟨f, rfl⟩, rfl⟩
      | ok session' => cases h

/-- The result of an opening tells the id of the session. -/
theorem told?_opened (hids : SessionIds.Sound count) (id : SessionId) (tree : Json) :
    told? (.record [("session", .text (SessionIds.spell id)), ("tree", tree)]) = some id := by
  have hsession : Json.unspell (Json.spell .plain "session") = ("session" : Bytes) := by decide
  have htree : Json.unspell (Json.spell .plain "tree") = ("tree" : Bytes) := by decide
  have hfound : (Json.record [("session", .text (SessionIds.spell id)), ("tree", tree)]).member?
      "session" = some (.text (SessionIds.spell id)) := by
    simp only [Json.record, Json.member?, Json.members?, List.map_cons, List.map_nil,
      Option.bind_some, hsession, htree]
    rfl
  rw [told?, hfound, Option.bind_some, hids.read?_text]

/-- Parameters that name a session that is known lead to it. -/
theorem sessionOf_of_known (hid : id ∈ s.known) (hnamed : named? params = some id) :
    ∃ session, s.sessionOf params = .ok (id, session) := by
  rw [named?] at hnamed
  rw [sessionOf]
  cases hread : readParams sessionShape params with
  | error f => simp [hread] at hnamed
  | ok members =>
    simp only [hread] at hnamed
    obtain ⟨p, hp, rfl⟩ := List.mem_map.mp hid
    have hsome : (s.sessions.lookup p.1).isSome :=
      List.lookup_isSome_iff.mpr ⟨p, hp, beq_self_eq_true _⟩
    obtain ⟨session, hsession⟩ := Option.isSome_iff_exists.mp hsome
    refine ⟨session, ?_⟩
    simp only [bind, Except.bind, hnamed, hsession]
    rfl

theorem sessionOf_of_unknown (h : ∀ id ∈ s.known, named? params ≠ some id) :
    ∃ f, s.sessionOf params = .error f := by
  cases hsession : s.sessionOf params with
  | error f => exact ⟨f, rfl⟩
  | ok q =>
    obtain ⟨members, hread, hfound⟩ := Session.bind_eq_ok_iff.mp hsession
    dsimp only at hfound
    split at hfound
    · cases hfound
    · next id hid =>
      split at hfound
      · cases hfound
      · next session hlookup =>
        obtain ⟨p, hp, hsame⟩ := List.lookup_isSome_iff.mp (Option.isSome_of_eq_some hlookup)
        refine absurd ?_ (h id (List.mem_map.mpr ⟨p, hp, (beq_iff_eq.mp hsame).symm⟩))
        rw [named?, hread]
        exact hid

theorem known_onSession {shape : RecordShape} {run : Operation} {p : Json × Server}
    (h : s.onSession shape params run = .ok p) :
    p.2.known = s.known ∧ p.2.opened = s.opened := by
  obtain ⟨⟨id, session⟩, -, h⟩ := Session.bind_eq_ok_iff.mp h
  obtain ⟨members, -, h⟩ := Session.bind_eq_ok_iff.mp h
  obtain ⟨⟨result, session'⟩, -, h⟩ := Session.bind_eq_ok_iff.mp h
  cases h
  exact ⟨known_update s id session', rfl⟩

/-! ## What comes of a request -/

section Outcomes

variable [Fuzzy] {r : Request}

theorem outcome_shutdown (h : r.method = ("shutdown" : Bytes)) :
    s.outcome opener? r = (.ok .null, { s with isShutDown := true, sessions := [] }) := by
  have hother : ¬ Bytes.ofString "shutdown" = Bytes.ofString "initialize" := by decide
  rw [outcome, handle?, h, if_neg hother, if_pos rfl]

theorem outcome_open (h : r.method = ("session/open" : Bytes)) :
    s.outcome opener? r = ((s.openSession opener? r.params).outcome,
      (s.openSession opener? r.params).server) := by
  have hothers : ∀ m ∈ (["initialize", "shutdown"] : List Bytes),
      ¬ Bytes.ofString "session/open" = m := by decide
  rw [outcome, handle?, h, if_neg (hothers _ (by simp)), if_neg (hothers _ (by simp)), if_pos rfl]

theorem outcome_close (h : r.method = ("session/close" : Bytes)) :
    s.outcome opener? r = ((s.handled (s.closeSession r.params)).outcome,
      (s.handled (s.closeSession r.params)).server) := by
  have hothers : ∀ m ∈ (["initialize", "shutdown", "session/open"] : List Bytes),
      ¬ Bytes.ofString "session/close" = m := by decide
  rw [outcome, handle?, h, if_neg (hothers _ (by simp)), if_neg (hothers _ (by simp)),
    if_neg (hothers _ (by simp)), if_pos rfl]

theorem outcome_other (s : Server) (opener? : Option Opener)
    (h : r.method ∉ (["shutdown", "session/open", "session/close"] : List Bytes)) :
    (s.outcome opener? r).2.known = s.known ∧ (s.outcome opener? r).2.opened = s.opened := by
  simp only [List.mem_cons, List.not_mem_nil, or_false, not_or] at h
  rw [outcome, handle?, if_neg h.1, if_neg h.2.1, if_neg h.2.2]
  split
  · next handled hhandled =>
    split at hhandled
    · cases hhandled
      exact ⟨rfl, rfl⟩
    · obtain ⟨⟨shape, run⟩, -, rfl⟩ := Option.map_eq_some_iff.mp hhandled
      dsimp only
      cases hrun : s.onSession shape r.params run with
      | error f => exact ⟨rfl, rfl⟩
      | ok p => exact known_onSession hrun
  · exact ⟨rfl, rfl⟩

theorem outcome_closed (h : r.method = ("session/close" : Bytes)) (hid : id ∈ s.known)
    (hnamed : named? r.params = some id) :
    s.outcome opener? r
      = (.ok .null, { s with sessions := s.sessions.filter fun p => p.1 != id }) := by
  obtain ⟨session, hsession⟩ := sessionOf_of_known hid hnamed
  rw [outcome_close h, closeSession, hsession]
  rfl

theorem outcome_notClosed (opener? : Option Opener)
    (h : r.method = ("session/close" : Bytes)) (hnone : ∀ id ∈ s.known, named? r.params ≠ some id) :
    ∃ f, s.outcome opener? r = (.error f, s) := by
  obtain ⟨f, hsession⟩ := sessionOf_of_unknown hnone
  refine ⟨f, ?_⟩
  rw [outcome_close h, closeSession, hsession]
  rfl

/-- A request takes a new id for a session that it opens, or it takes none and opens none. -/
theorem outcome_cases (s : Server) (opener? : Option Opener) (r : Request) :
    (∃ session, (s.outcome opener? r).2 = { s with
        sessions := (SessionIds.new (s.opened + 1), session) :: s.sessions
        opened := s.opened + 1 })
      ∨ ((s.outcome opener? r).2.known.Sublist s.known
        ∧ (s.outcome opener? r).2.opened = s.opened) := by
  -- only an opening that succeeds makes an id, and only a shutdown or a closing takes one away
  by_cases hshut : r.method = ("shutdown" : Bytes)
  · rw [outcome_shutdown hshut]
    exact .inr ⟨List.nil_sublist _, rfl⟩
  by_cases hopen : r.method = ("session/open" : Bytes)
  · rw [outcome_open hopen]
    cases hsession : s.opening? opener? r.params with
    | none =>
      rw [(openSession_of_none hsession).2]
      exact .inr ⟨List.Sublist.refl _, rfl⟩
    | some session =>
      obtain ⟨tree, -, hserver⟩ := openSession_of_opening hsession
      exact .inl ⟨session, hserver⟩
  by_cases hclose : r.method = ("session/close" : Bytes)
  · by_cases hnamed : ∃ id ∈ s.known, named? r.params = some id
    · obtain ⟨id, hid, hnamed⟩ := hnamed
      rw [outcome_closed hclose hid hnamed]
      exact .inr ⟨List.filter_sublist.map _, rfl⟩
    · obtain ⟨f, hf⟩ := outcome_notClosed opener? hclose fun id hid hid' =>
        hnamed ⟨id, hid, hid'⟩
      rw [hf]
      exact .inr ⟨List.Sublist.refl _, rfl⟩
  · have hnot : r.method ∉ (["shutdown", "session/open", "session/close"] : List Bytes) := by
      simp [hshut, hopen, hclose]
    obtain ⟨hknown, hopened⟩ := outcome_other s opener? hnot
    exact .inr ⟨hknown ▸ List.Sublist.refl _, hopened⟩

end Outcomes

/-! ## Ids are not used twice -/

/-- A server that has taken at most `count` ids, and knows no sessions but by ids that it took. -/
structure Numbered (s : Server) (count : Nat) : Prop where
  opened : s.opened ≤ count
  made : ∀ id ∈ s.known, ∃ n ≤ s.opened, id = SessionIds.new n
  nodup : s.known.Nodup

theorem numbered_new (storage : Storage) : ({ storage } : Server).Numbered 0 :=
  ⟨Nat.le_refl 0, List.forall_mem_nil _, List.nodup_nil⟩

theorem Numbered.mono (h : s.Numbered count) {more : Nat} (hle : count ≤ more) : s.Numbered more :=
  { h with opened := h.opened.trans hle }

/-- The next id is not one that is known. -/
theorem Numbered.new_not_mem (h : s.Numbered count) (hids : SessionIds.Sound (count + 1)) :
    SessionIds.new (s.opened + 1) ∉ s.known := by
  intro hmem
  obtain ⟨n, hn, heq⟩ := h.made _ hmem
  exact hids.fresh n (s.opened + 1) (Nat.lt_succ_of_le hn) (Nat.succ_le_succ h.opened) heq.symm

section Outcomes

variable [Fuzzy] {r : Request} {payload : Bytes}

theorem Numbered.outcome (h : s.Numbered count) (hids : SessionIds.Sound (count + 1)) :
    (s.outcome opener? r).2.Numbered (count + 1) := by
  rcases outcome_cases s opener? r with ⟨session, hserver⟩ | ⟨hknown, hopened⟩
  · have hall : (s.outcome opener? r).2.known = SessionIds.new (s.opened + 1) :: s.known := by
      rw [hserver]
      rfl
    refine ⟨by rw [hserver]; exact Nat.succ_le_succ h.opened, fun id hid => ?_, ?_⟩
    · rw [hserver]
      rcases List.mem_cons.mp (hall ▸ hid) with rfl | hold
      · exact ⟨s.opened + 1, Nat.le_refl _, rfl⟩
      · obtain ⟨n, hn, heq⟩ := h.made id hold
        exact ⟨n, Nat.le_succ_of_le hn, heq⟩
    · rw [hall]
      exact List.nodup_cons.mpr ⟨h.new_not_mem hids, h.nodup⟩
  · refine ⟨hopened ▸ Nat.le_succ_of_le h.opened, fun id hid => ?_, h.nodup.sublist hknown⟩
    rw [hopened]
    exact h.made id (hknown.subset hid)

/-- What comes of a request keeps the sessions as it should, with an id that is new. -/
theorem Numbered.keeps (h : s.Numbered count) (hids : SessionIds.Sound (count + 1)) :
    Keeps opener? s r (s.outcome opener? r) where
  opened hmethod session hsession := by
    obtain ⟨tree, houtcome, hserver⟩ := openSession_of_opening hsession
    rw [outcome_open hmethod]
    exact ⟨_, _, houtcome, told?_opened hids _ tree, h.new_not_mem hids, by rw [hserver]⟩
  notOpened hmethod hnone := by
    rw [outcome_open hmethod]
    obtain ⟨hfails, hserver⟩ := openSession_of_none hnone
    exact ⟨hfails, by rw [hserver]⟩
  closed hmethod id hid hnamed := by
    rw [outcome_closed hmethod hid hnamed]
    exact ⟨rfl, rfl⟩
  notClosed hmethod hnone := by
    obtain ⟨f, hf⟩ := outcome_notClosed opener? hmethod hnone
    rw [hf]
    exact ⟨⟨f, rfl⟩, rfl⟩
  shutDown hmethod := by
    rw [outcome_shutdown hmethod]
    exact ⟨rfl, rfl⟩
  other hmethod := (outcome_other s opener? hmethod).1

theorem Numbered.receive (h : s.Numbered count) (opener? : Option Opener)
    (hids : SessionIds.Sound (count + 1)) (hexit : asksToExit payload = false) :
    (s.receive opener? payload).server.Numbered (count + 1) := by
  cases hread : Request.read payload with
  | error e =>
    rw [Server.receive, hread]
    exact h.mono (Nat.le_succ count)
  | ok r =>
    by_cases hmethod : r.method = []
    · simp only [Server.receive, hread, hmethod, List.isEmpty_nil, if_true]
      exact h.mono (Nat.le_succ count)
    · rw [receive_eq hread hmethod, (answer_eq s opener? (method_ne_exit hread hexit)).2.1]
      exact h.outcome hids

end Outcomes

end Ids

end Server

/-! ## Turns -/

/-- What a message did to the set of the sessions that are open. -/
inductive Turn where
  | opened (id : SessionId)
  | closed (id : SessionId)
  | shutDown
deriving DecidableEq, Repr

namespace Turn

/-- Whether a session is not open any more. -/
def Ends (id : SessionId) : Turn → Prop
  | opened _ => False
  | closed id' => id' = id
  | shutDown => True

/-- A session is open after some turns: it was opened, and none of those behind that ended it. -/
def LeavesOpen (id : SessionId) (turns : List Turn) : Prop :=
  ∃ before later, turns = before ++ opened id :: later ∧ ∀ t ∈ later, ¬ t.Ends id

/-- What a request that went well with a result did. -/
def ofResult [SessionIds] (r : Request) (result : Json) : Option Turn :=
  if r.method = ("shutdown" : Bytes) then some .shutDown
  else if r.method = ("session/open" : Bytes) then (Server.told? result).map .opened
  else if r.method = ("session/close" : Bytes) then (Server.named? r.params).map .closed
  else none

/-- What a request did that ended in some way. -/
def ofOutcome [SessionIds] (r : Request) : Except Failure Json → Option Turn
  | .ok result => ofResult r result
  | .error _ => none

theorem ofOutcome_other [SessionIds] {r : Request} (x : Except Failure Json)
    (h : r.method ∉ (["shutdown", "session/open", "session/close"] : List Bytes)) :
    ofOutcome r x = none := by
  simp only [List.mem_cons, List.not_mem_nil, or_false, not_or] at h
  cases x with
  | error f => rfl
  | ok result => rw [ofOutcome, ofResult, if_neg h.1, if_neg h.2.1, if_neg h.2.2]

@[simp] theorem not_leavesOpen_nil (id : SessionId) : ¬ LeavesOpen id [] := by
  rintro ⟨before, later, heq, -⟩
  exact List.append_ne_nil_of_right_ne_nil before (List.cons_ne_nil _ later) heq.symm

theorem leavesOpen_cons {id : SessionId} {t : Turn} {ts : List Turn} :
    LeavesOpen id (t :: ts) ↔
      LeavesOpen id ts ∨ (t = .opened id ∧ ∀ t' ∈ ts, ¬ t'.Ends id) := by
  constructor
  · rintro ⟨before, later, heq, hlater⟩
    cases before with
    | nil =>
      obtain ⟨rfl, rfl⟩ := List.cons.inj heq
      exact .inr ⟨rfl, hlater⟩
    | cons first before =>
      obtain ⟨-, rfl⟩ := List.cons.inj heq
      exact .inl ⟨before, later, rfl, hlater⟩
  · rintro (⟨before, later, rfl, hlater⟩ | ⟨rfl, hlater⟩)
    · exact ⟨t :: before, later, rfl, hlater⟩
    · exact ⟨[], ts, rfl, hlater⟩

end Turn

namespace Server

variable {s : Server} {opener? : Option Opener}

/-- What a turn, or none at all, makes of the sessions that are known. -/
def Turned (s : Server) (t : Option Turn) (s' : Server) : Prop :=
  ∀ id, id ∈ s'.known ↔ t = some (.opened id) ∨ (id ∈ s.known ∧ ∀ t' ∈ t, ¬ t'.Ends id)

theorem Turned.same {s' : Server} (h : s'.known = s.known) : Turned s none s' := by
  intro id
  simp [h]

section Turns

variable [SessionIds] {r : Request} {x : Except Failure Json × Server} {count : Nat}

/-- What a request does to the sessions is told by the method and the result. -/
theorem Keeps.turned (h : Keeps opener? s r x) : Turned s (Turn.ofOutcome r x.1) x.2 := by
  -- A shutdown, an opening, a closing, and all other requests, which leave the ids as they are.
  by_cases hshut : r.method = ("shutdown" : Bytes)
  · obtain ⟨hok, hsessions⟩ := h.shutDown hshut
    intro id
    simp [hok, Turn.ofOutcome, Turn.ofResult, hshut, known, hsessions, Turn.Ends]
  by_cases hopen : r.method = ("session/open" : Bytes)
  · cases hsession : s.opening? opener? r.params with
    | none =>
      obtain ⟨⟨f, hfails⟩, hsessions⟩ := h.notOpened hopen hsession
      rw [hfails]
      exact .same (by rw [known, hsessions, known])
    | some session =>
      obtain ⟨result, id, hok, htold, -, hsessions⟩ := h.opened hopen session hsession
      have hturn : Turn.ofOutcome r x.1 = some (.opened id) := by
        -- the id that the reply tells is the one that is known from now on
        rw [hok, Turn.ofOutcome, Turn.ofResult, if_neg hshut, if_pos hopen, htold, Option.map_some]
      intro id'
      simp [hturn, known, hsessions, Turn.Ends, eq_comm]
  by_cases hclose : r.method = ("session/close" : Bytes)
  · by_cases hnamed : ∃ id ∈ s.known, named? r.params = some id
    · obtain ⟨id, hid, hnamed⟩ := hnamed
      obtain ⟨hok, hsessions⟩ := h.closed hclose id hid hnamed
      have hturn : Turn.ofOutcome r x.1 = some (.closed id) := by
        rw [hok, Turn.ofOutcome, Turn.ofResult, if_neg hshut, if_neg hopen, if_pos hclose, hnamed,
          Option.map_some]
      have hkept : x.2.known = s.known.filter (· != id) := by
        rw [known, hsessions, known, List.filter_map]
        rfl
      intro id'
      rw [hkept, List.mem_filter, bne_iff_ne, ne_comm, hturn]
      simp [Turn.Ends]
    -- no known id was named, so the request fails and nothing is closed
    · obtain ⟨⟨f, hfails⟩, hsessions⟩ := h.notClosed hclose fun id hid hid' =>
        hnamed ⟨id, hid, hid'⟩
      rw [hfails]
      exact .same (by rw [known, hsessions, known])
  · have hnot : r.method ∉ (["shutdown", "session/open", "session/close"] : List Bytes) := by
      simp [hshut, hopen, hclose]
    rw [Turn.ofOutcome_other _ hnot]
    exact .same (h.other hnot)

variable [Fuzzy] {payload : Bytes}

/-- The turn that a payload takes. -/
def turn? (opener? : Option Opener) (s : Server) (payload : Bytes) : Option Turn :=
  match Request.read payload with
  | .error _ => none
  | .ok r => Turn.ofOutcome r (s.outcome opener? r).1

/-- The turns that payloads take, one after the other. -/
def turns (opener? : Option Opener) : Server → List Bytes → List Turn
  | _, [] => []
  | s, p :: ps => (turn? opener? s p).toList ++ turns opener? (s.receive opener? p).server ps

theorem Numbered.turned (h : s.Numbered count) (opener? : Option Opener)
    (hids : SessionIds.Sound (count + 1)) (hexit : asksToExit payload = false) :
    Turned s (turn? opener? s payload) (s.receive opener? payload).server := by
  rw [turn?]
  cases hread : Request.read payload with
  | error e =>
    rw [Server.receive, hread]
    exact .same rfl
  | ok r =>
    by_cases hmethod : r.method = []
    · have hnot : r.method ∉ (["shutdown", "session/open", "session/close"] : List Bytes) := by
        rw [hmethod]
        decide
      simp only [Turn.ofOutcome_other _ hnot, Server.receive, hread, hmethod, List.isEmpty_nil,
        if_true]
      exact .same rfl
    · rw [receive_eq hread hmethod, (answer_eq s opener? (method_ne_exit hread hexit)).2.1]
      exact (h.keeps hids).turned

/-! ## Whole runs -/

variable {payloads : List Bytes}

/-- Each message takes at most one id. -/
theorem Numbered.after (h : s.Numbered count) (opener? : Option Opener)
    (hids : SessionIds.Sound (count + payloads.length))
    (hexit : ∀ p ∈ payloads, asksToExit p = false) :
    (after opener? s payloads).Numbered (count + payloads.length) := by
  induction payloads generalizing s count with
  | nil => exact h
  | cons p payloads ih =>
    rw [List.length_cons, Nat.add_comm payloads.length, ← Nat.add_assoc] at hids ⊢
    have hstep := h.receive opener? (hids.mono (Nat.le_add_right _ _))
      (hexit p List.mem_cons_self)
    exact ih hstep hids fun q hq => hexit q (List.mem_cons_of_mem _ hq)

/-- A session is known that was opened and not ended since, or that was known at first and never
ended. -/
theorem Numbered.mem_known_after (h : s.Numbered count)
    (hids : SessionIds.Sound (count + payloads.length))
    (hexit : ∀ p ∈ payloads, asksToExit p = false) (id : SessionId) :
    id ∈ (Server.after opener? s payloads).known ↔
      Turn.LeavesOpen id (turns opener? s payloads)
        ∨ (id ∈ s.known ∧ ∀ t ∈ turns opener? s payloads, ¬ t.Ends id) := by
  induction payloads generalizing s count with
  | nil => simp [Server.after, turns]
  | cons p payloads ih =>
    rw [List.length_cons, Nat.add_comm payloads.length, ← Nat.add_assoc] at hids
    have hone := hids.mono (Nat.le_add_right (count + 1) payloads.length)
    have hp := hexit p List.mem_cons_self
    have hturned := h.turned opener? hone hp id
    have hrest := ih (h.receive opener? hone hp) hids fun q hq =>
      hexit q (List.mem_cons_of_mem _ hq)
    rw [Server.after] at hrest
    rw [Server.after, List.foldl_cons, hrest, hturned, turns]
    cases turn? opener? s p with
    | none => simp
    | some t =>
      simp only [Option.toList_some, List.singleton_append, Turn.leavesOpen_cons,
        List.forall_mem_cons, Option.some.injEq, Option.mem_def, forall_eq']
      clear hturned hrest ih hexit
      tauto

end Turns

end Server

end Storyline.Rpc
