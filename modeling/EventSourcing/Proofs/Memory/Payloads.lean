import EventSourcing.Directory.KeyPair
import EventSourcing.Directory.Org
import EventSourcing.Proofs.Json.Records
import EventSourcing.Proofs.Memory.Pages
import EventSourcing.Proofs.Memory.Reads

/-!
# The store in memory — typed payloads

A typed payload goes into a command as JSON, from there into an event, and comes out of a later read.  Nothing
on the way looks into it.  What tells two kinds of payload apart is the type that an event is recorded under,
even where the payloads look alike.

* `LawfulPayload`: a payload that can be written is read as what it was.
* `Event.carries_of_records`: the event of a command that was made of a payload carries the payload.
* `Ledger.Consistent.keeps`: every read of a consistent log that takes an event takes it as it is.
* `Memory.payloads_survive`: **typed payloads survive the store**, from any batch and into any later read, for
  readers of their own kind and for these alone.
-/

namespace EventSourcing

/-- Payloads that can always be written, and are read as what they were. -/
class LawfulPayload (α : Type) [ToPayload α] [OfPayload α] : Prop where
  read_written : ∀ p : α, ∃ v, ToPayload.toPayload p = .ok v ∧ OfPayload.ofPayload v = .ok p

/-! ### Kinds of payload -/

/-- The shape that the payloads of organisations have in common. -/
theorem Json.Record.members_text (record name : String) (s : String) :
    Record.members ⟨record, [.of name Json.text]⟩ (.obj [(name, .str s)]) = .ok [(name, .str s)] := by
  refine members_obj (List.forall_mem_singleton.mpr ?_)
  exact checkMember_of_read Json.text (List.find?_cons_of_pos (decide_eq_true rfl)) rfl

/-- Added organisations are read back. -/
theorem OrgAdded.ofJson_toJson (p : OrgAdded) : OrgAdded.ofJson p.toJson = .ok p :=
  bind_eq_ok.mpr ⟨_, Json.Record.members_text "OrgAdded" "name" p.name, rfl⟩

/-- Changed organisations are read back. -/
theorem OrgChanged.ofJson_toJson (p : OrgChanged) : OrgChanged.ofJson p.toJson = .ok p :=
  bind_eq_ok.mpr ⟨_, Json.Record.members_text "OrgChanged" "name" p.name, rfl⟩

/-- Added key pairs are read back, whatever their usage. -/
theorem KeyPairAdded.ofJson_toJson (p : KeyPairAdded) : KeyPairAdded.ofJson p.toJson = .ok p := by
  -- the usage fits eight bits by its type
  have husage : Json.word8 (.int p.usage.toNat) = .ok p.usage.toNat :=
    Json.natural_int p.usage.toNat_lt
  refine bind_eq_ok.mpr ⟨_, Json.Record.members_obj ?_, ?_⟩
  · rw [List.forall_mem_cons, List.forall_mem_singleton]
    exact ⟨Json.Record.checkMember_of_read Json.text rfl rfl,
      Json.Record.checkMember_of_read Json.word8 rfl husage⟩
  · refine bind_eq_ok.mpr ⟨_, Json.required_of_lookup rfl husage, ?_⟩
    refine bind_eq_ok.mpr ⟨p.algorithm, rfl, ?_⟩
    show Except.ok (KeyPairAdded.mk (UInt8.ofNat p.usage.toNat) p.algorithm) = .ok p
    rw [UInt8.ofNat_toNat]

/-- The kinds of payload that are recorded under a type of their own. -/
inductive PayloadKind where
  | orgAdded
  | orgChanged
  | keyPairAdded
deriving DecidableEq

namespace PayloadKind

/-- The payloads of a kind. -/
def Payload : PayloadKind → Type
  | orgAdded => OrgAdded
  | orgChanged => OrgChanged
  | keyPairAdded => KeyPairAdded

instance : (k : PayloadKind) → ToPayload k.Payload
  | orgAdded => inferInstanceAs (ToPayload OrgAdded)
  | orgChanged => inferInstanceAs (ToPayload OrgChanged)
  | keyPairAdded => inferInstanceAs (ToPayload KeyPairAdded)

instance : (k : PayloadKind) → OfPayload k.Payload
  | orgAdded => inferInstanceAs (OfPayload OrgAdded)
  | orgChanged => inferInstanceAs (OfPayload OrgChanged)
  | keyPairAdded => inferInstanceAs (OfPayload KeyPairAdded)

instance : (k : PayloadKind) → Recorded k.Payload
  | orgAdded => inferInstanceAs (Recorded OrgAdded)
  | orgChanged => inferInstanceAs (Recorded OrgChanged)
  | keyPairAdded => inferInstanceAs (Recorded KeyPairAdded)

instance : (k : PayloadKind) → LawfulPayload k.Payload
  | orgAdded => ⟨fun p => ⟨_, rfl, OrgAdded.ofJson_toJson p⟩⟩
  | orgChanged => ⟨fun p => ⟨_, rfl, OrgChanged.ofJson_toJson p⟩⟩
  | keyPairAdded => ⟨fun p => ⟨_, rfl, KeyPairAdded.ofJson_toJson p⟩⟩

/-- The type that payloads of a kind are recorded under. -/
def eventType (k : PayloadKind) : EventType :=
  Recorded.eventType k.Payload

/-- No two kinds are recorded under one type. -/
theorem eventType_inj {k k' : PayloadKind} (h : k.eventType = k'.eventType) : k = k' := by
  revert h
  cases k <;> cases k' <;> decide

end PayloadKind

/-! ### Commands and events -/

/-- The command of a lawful payload can be made, under the payload's type. -/
theorem Command.ofPayload_eq_ok {α : Type} [ToPayload α] [OfPayload α] [Recorded α] [LawfulPayload α]
    (a : Aggregate) (p : α) : ∃ v, OfPayload.ofPayload v = .ok p ∧
      Command.ofPayload a p = .ok { aggregate := a, type := Recorded.eventType α, payload := v } := by
  obtain ⟨v, hv, hread⟩ := LawfulPayload.read_written p
  refine ⟨v, hread, ?_⟩
  rw [ofPayload, withPayload, hv]

/-- The event carries a payload.  Readers of its kind get the payload, and readers of any other kind get
nothing but the two types. -/
structure Event.Carries (e : Event) {k : PayloadKind} (p : k.Payload) : Prop where
  read : e.decodeAs k.Payload = .ok p
  refused : ∀ k' ≠ k, e.decodeAs k'.Payload = .error (.unexpectedType k'.eventType k.eventType)

/-- Under its own type, a payload is decoded. -/
theorem Event.decodeAs_of_type {α : Type} [OfPayload α] [Recorded α] {e : Event}
    (h : e.type = Recorded.eventType α) : e.decodeAs α = e.decode α :=
  if_pos h

/-- Under any other type it is not looked at. -/
theorem Event.decodeAs_of_type_ne {α : Type} [OfPayload α] [Recorded α] {e : Event}
    (h : e.type ≠ Recorded.eventType α) :
    e.decodeAs α = .error (.unexpectedType (Recorded.eventType α) e.type) :=
  if_neg h

/-- **The event of a command carries the payload** that the command was made of. -/
theorem Event.carries_of_records {k : PayloadKind} {p : k.Payload} {c : Command} {e : Event}
    (htype : c.type = k.eventType) (hread : OfPayload.ofPayload c.payload = .ok p)
    (h : e.Records c) : e.Carries p where
  read := by
    rw [decodeAs_of_type (h.type.trans htype), decode, h.data, hread]
    rfl
  refused k' hne := by
    have htype' : e.type = k.eventType := h.type.trans htype
    have hother : e.type ≠ k'.eventType := fun heq =>
      hne (PayloadKind.eventType_inj (heq.symm.trans htype'))
    rw [decodeAs_of_type_ne hother, htype']
    rfl

/-! ### Later reads -/

namespace Memory

/-- A read of the store, typed or not, gives these events. -/
def Gives (m : Memory) (ctx : Context) (q : Query) (found : List Event) : Prop :=
  (EventStore.filter ctx q m).1 = .ok found ∨ (m.query ctx q).1 = .ok (.events found)

/-- The store has the event for good reads: whatever is read at its position is the event itself, and a read
of all that a query selects has it among them. -/
structure Keeps (m : Memory) (e : Event) : Prop where
  unaltered : ∀ ctx q found, m.Gives ctx q found → ∀ e' ∈ found, e'.position = e.position → e' = e
  found : ∀ ctx q, ctx.interruption? = none → q.columns = .event → q.limit = 0 → q.offset = 0 →
    (q.resolve ctx).selects e = true → ∃ found, m.Gives ctx q found ∧ e ∈ found

/-- What a read gives is what its query selects from the ledger. -/
theorem Gives.eq_events {m : Memory} {ctx : Context} {q : Query} {found : List Event}
    (h : m.Gives ctx q found) : found = m.ledger.events (q.resolve ctx) := by
  rcases h with h | h
  · exact (filter_ok_iff.mp h).2.2
  · cases hi : ctx.interruption? with
    | some i => simp [query, Context.check, hi, Except.map] at h
    | none =>
        rw [query_ok hi] at h
        have hselect : m.ledger.select (q.resolve ctx) = .events found := Except.ok.inj h
        cases hc : (q.resolve ctx).columns with
        | event =>
            rw [Ledger.select_event _ hc] at hselect
            exact (Output.events.inj hselect).symm
        | maxSequence | instanceIds => simp [Ledger.select, hc] at hselect

/-- **What is stored is kept**, as it is, for all good reads. -/
theorem Reachable.keeps {m : Memory} (h : m.Reachable) {e : Event} (he : e ∈ m.ledger.log) :
    m.Keeps e where
  unaltered ctx q found hfound e' he' hposition := by
    rw [hfound.eq_events] at he'
    exact h.consistent.eq_of_position (Ledger.selects_of_mem_events he').1 he hposition
  found ctx q hctx hcolumns hlimit hoffset hselects := by
    refine ⟨_, .inl (filter_ok_iff.mpr ⟨hcolumns, hctx, rfl⟩), ?_⟩
    obtain ⟨instanceId, hresolve⟩ := q.exists_resolve ctx
    rw [Ledger.mem_events_of_unpaged (by rw [hresolve]; exact hlimit) (by rw [hresolve]; exact hoffset)]
    exact Ledger.mem_matching.mpr ⟨he, hselects⟩

/-- **Typed payloads survive the store.**  A payload becomes a command, and the command, as it is or with an
editor and an expectation, an event wherever it stands in a batch that is accepted.  The event carries the
payload as it is returned, and every later read that takes the event takes it as it was. -/
theorem payloads_survive {m : Memory} (hm : m.Reachable) {k : PayloadKind} (p : k.Payload)
    (a : Aggregate) :
    ∃ c, Command.ofPayload a p = .ok c ∧
      ∀ (ctx : Context) (b : Batch) (i : Nat) (editorUser : String) (sequence : Option Nat),
        b.toList[i]? = some { c with editorUser, sequence } →
        ∀ events, (m.push ctx b).1 = .ok events →
          ∃ e, events[i]? = some e ∧ e.Carries p ∧
            ∀ later, ((m.push ctx b).2.acts later).Keeps e := by
  obtain ⟨v, hread, hc⟩ := Command.ofPayload_eq_ok a p
  refine ⟨_, hc, fun ctx b i editorUser sequence hi events hpush => ?_⟩
  obtain ⟨-, -, rfl, hm'⟩ := push_ok hpush
  -- the command keeps its place, and nothing but its tenant is filled in
  let recorded : Command :=
    { aggregate := ctx.scope a, type := k.eventType, editorUser, payload := v, sequence }
  have hscoped : (b.scoped ctx).toList[i]? = some recorded := by
    rw [Batch.toList_scoped, List.getElem?_map, hi]
    rfl
  obtain ⟨e, he, hrecords⟩ := Ledger.exists_getElem?_nextEvents m.now m.ledger hscoped
  refine ⟨e, he, Event.carries_of_records rfl hread hrecords, fun later => ?_⟩
  have hlog : e ∈ (m.push ctx b).2.ledger.log := by
    rw [hm', accept, Ledger.log_appendAll]
    exact List.mem_append_right _ (List.mem_of_getElem? he)
  refine Reachable.keeps ?_ ((grows_acts (m.push ctx b).2 later).mem hlog)
  exact (hm.acts [.push ctx b]).acts later

/-! ### Payloads of one shape -/

/-- An organisation that owns itself. -/
def zurich : Aggregate := { type := "org", id := "org-1", resourceOwner := "org-1" }

/-- A payload that could have been written by the adding or by the renaming of an organisation. -/
def named : Json := .obj [("name", .str "Zürich")]

/-- The command that adds the organisation, as the first event of its stream. -/
def addZurich : Command where
  aggregate := zurich
  type := "org.added"
  editorUser := "admin"
  payload := named
  sequence := some 0

/-- A note on a user, and then the organisation. -/
def foundation : Batch :=
  ⟨{ aggregate := { type := "user", id := "u1" }, type := "user.noted" }, [addZurich]⟩

/-- A later push with the same payload, under the type of a renaming. -/
def renameZurich : Action :=
  .push (.forInstance "t1") ⟨{ aggregate := zurich, type := "org.changed", payload := named }, []⟩

/-- The payload of the adding is no renaming, although it could be read as one. -/
theorem payloads_survive_sameShape :
    ∃ events e, (({ clock := default } : Memory).push (.forInstance "t1") foundation).1 = .ok events ∧
      events[1]? = some e ∧ e.decodeAs OrgAdded = .ok ⟨"Zürich"⟩ ∧
      e.decode OrgChanged = .ok ⟨"Zürich"⟩ ∧
      e.decodeAs OrgChanged = .error (.unexpectedType "org.changed" "org.added") ∧
      ((({ clock := default } : Memory).push (.forInstance "t1") foundation).2.acts
        [renameZurich]).Keeps e := by
  have hreach : ({ clock := default } : Memory).Reachable := ⟨default, [], rfl⟩
  have hpush : ∃ events, (({ clock := default } : Memory).push (.forInstance "t1") foundation).1 =
      .ok events := ⟨_, rfl⟩
  obtain ⟨c, hc, hevents⟩ := payloads_survive hreach (k := .orgAdded) (⟨"Zürich"⟩ : OrgAdded) zurich
  cases hc
  obtain ⟨events, hok⟩ := hpush
  obtain ⟨e, he, hcarries, hkeeps⟩ := hevents (.forInstance "t1") foundation 1 "admin" (some 0) rfl
    events hok
  refine ⟨events, e, hok, he, hcarries.read, ?_, hcarries.refused .orgChanged (by decide),
    hkeeps [renameZurich]⟩
  cases hok
  cases he
  rfl

end Memory

end EventSourcing
