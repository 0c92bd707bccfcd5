import Cscrypto.Gui.Delivery

namespace Cscrypto.Gui

open Cscrypto.Data Cscrypto.KeyExchange

/-! # Where emitted keys come from

Whatever the network delivers, the keys that a party hands to its user are
computed from its own key and from the message that it checked last, and that
message met all the checks.
-/

/-- The keys are those of the party's own key and of the exchange key in a
message that met all the checks. -/
def Justifies (sodium : Sodium) (serverSide : Bool) (message : Message) (own : KeyPair)
    (send receive : Bytes) : Prop :=
  ∃ sender exchange secret,
    Accepts sodium message.table message.type message.request sender exchange ∧
    own.2 = .holding secret ∧ commonKeys sodium serverSide secret exchange = some (send, receive)

def KeysExplained (sodium : Sodium) (before : List Entry) (entry : Entry) : Prop :=
  ∀ own send receive, entry.event = .emitted own send receive →
    ∃ message, latest (messageOf entry.party) before = some message ∧
      Justifies sodium entry.party.serverSide message own send receive ∧
      (entry.party.serverSide = false → message.type = keyExchangeReply)

theorem mem_emittedKeys {sodium : Sodium} {serverSide : Bool} {own : KeyPair} {secret : SecretKey}
    {peer : PubExchangeKey} {event : Event}
    (member : event ∈ emittedKeys sodium serverSide own secret peer) :
    ∃ send receive, event = .emitted own send receive ∧
      commonKeys sodium serverSide secret peer = some (send, receive) := by
  unfold emittedKeys at member
  split at member
  · contradiction
  · rename_i send receive computed
    exact ⟨send, receive, List.mem_singleton.mp member, computed⟩

/-- After an accepted message nothing else is checked in the same step, and the
keys come from that message. -/
theorem accepted_rest {sodium : Sodium} {serverSide : Bool} {own : KeyPair} {type : RequestType}
    {exchange : PubExchangeKey} {keys answer : List Event}
    (keysOf : RequestMaster.KeysOf sodium serverSide own type exchange keys)
    (answers : (serverSide = false ∧ answer = []) ∨
      (serverSide = true ∧ Answer sodium own exchange answer)) :
    ∀ event ∈ keys ++ answer, (∃ secret send receive, own.2 = .holding secret ∧
        event = .emitted own send receive ∧
        commonKeys sodium serverSide secret exchange = some (send, receive) ∧
        (serverSide = false → type = keyExchangeReply)) ∨
      (∃ bytes, event = .written bytes) ∨
      ∃ secret epk esk, serverSide = true ∧ own.2 = .holding secret ∧
        exchangeKeys sodium secret = some (epk, esk) ∧
        event = .signed own.1 (signedPart keyExchangeReply own.1 epk) := by
  intro event member
  rcases List.mem_append.mp member with early | late
  · rcases keysOf with ⟨_, rfl⟩ | ⟨reply, secret, holds, rfl⟩
    · contradiction
    · obtain ⟨send, receive, rfl, computed⟩ := mem_emittedKeys early
      exact .inl ⟨secret, send, receive, holds, rfl, computed, fun _ => reply⟩
  · rcases answers with ⟨_, rfl⟩ | ⟨server, rfl | ⟨secret, epk, esk, holds, derived, rfl⟩⟩
    · contradiction
    · exact .inr (.inl ⟨[], List.mem_singleton.mp late⟩)
    · rcases List.mem_cons.mp late with rfl | late
      · exact .inr (.inr ⟨secret, epk, esk, server, holds, derived, rfl⟩)
      rcases List.mem_append.mp late with emitted | written
      · obtain ⟨send, receive, rfl, computed⟩ := mem_emittedKeys emitted
        rw [← server] at computed
        exact .inl ⟨secret, send, receive, holds, rfl, computed,
          fun client => by simp [server] at client⟩
      · exact .inr (.inl ⟨_, List.mem_singleton.mp written⟩)

/-- Keys of a client stand right after the message that they come from. -/
theorem Effect.client_emitted {sodium : Sodium} {own own' : KeyPair}
    {events before after : List Event} {send receive : Bytes}
    (effect : Effect sodium false own events)
    (emitted : events = before ++ .emitted own' send receive :: after) :
    ∃ request table sender exchange secret,
      before = [.validating keyExchangeReply request table] ∧ own' = own ∧
      Accepts sodium table keyExchangeReply request sender exchange ∧ own.2 = .holding secret ∧
      commonKeys sodium false secret exchange = some (send, receive) := by
  have member : Event.emitted own' send receive ∈ events := by
    rw [emitted]
    exact List.mem_append_cons_self
  cases effect with
  | plain _ all => exact absurd (all _ member) id
  | rejected type request table message => simp at member
  | accepted type request table sender exchange keys answer accepts keysOf answers =>
      obtain ⟨_, rfl⟩ := answers.resolve_right (fun server => absurd server.1 Bool.false_ne_true)
      rw [List.append_nil] at member emitted
      have inside := (List.mem_cons.mp member).resolve_left (by simp)
      obtain ⟨rfl, secret, holds, rfl⟩ :=
        keysOf.resolve_left (fun none => by simp [none.2] at inside)
      obtain ⟨send', receive', same, computed⟩ := mem_emittedKeys inside
      obtain ⟨rfl, rfl, rfl⟩ := Event.emitted.inj same
      rw [emittedKeys_of_commonKeys computed] at emitted
      refine ⟨request, table, sender, exchange, secret, ?_, rfl, accepts, holds, computed⟩
      cases before with
      | nil => simp at emitted
      | cons head rest =>
          obtain ⟨rfl, tail⟩ := List.cons.inj emitted
          cases rest with
          | nil => rfl
          | cons next more => simp at tail

theorem Effect.keysExplained {sodium : Sodium} {party : Party} {own : KeyPair} {events : List Event}
    (effect : Effect sodium party.serverSide own events) (log : List Entry) :
    ∀ before entry after, events.map (Entry.mk party) = before ++ entry :: after →
      KeysExplained sodium (log ++ before) entry := by
  intro before entry after same keyPair send receive emitted
  have member : entry ∈ events.map (Entry.mk party) := by
    rw [same]
    exact List.mem_append_cons_self
  obtain ⟨event, inside, rfl⟩ := List.mem_map.mp member
  simp only at emitted
  subst emitted
  cases effect with
  | plain _ all => exact absurd (all _ inside) id
  | rejected type request table message => simp at inside
  | accepted type request table sender exchange keys answer accepts keysOf answers =>
      have rest := accepted_rest keysOf answers
      cases before with
      | nil => simp at same
      | cons call others =>
          obtain ⟨rfl, tail⟩ := List.cons.inj same
          refine ⟨⟨type, request, table⟩, ?_, ?_⟩
          · refine latest_append_cons (if_pos rfl) ?_
            intro other earlier
            have member : other ∈ (keys ++ answer).map (Entry.mk party) := by
              rw [show (keys ++ answer).map (Entry.mk party) = _ from tail]
              exact List.mem_append_left _ earlier
            obtain ⟨event, inside, rfl⟩ := List.mem_map.mp member
            rcases rest event inside with
              ⟨_, _, _, _, rfl, _⟩ | ⟨_, rfl⟩ | ⟨_, _, _, _, _, _, rfl⟩
            all_goals rfl
          · have later : Event.emitted keyPair send receive ∈ keys ++ answer := by
              simpa using inside
            rcases rest _ later with
              ⟨secret, _, _, holds, emitted, computed, reply⟩ | ⟨_, other⟩ |
                ⟨_, _, _, _, _, _, other⟩
            · cases emitted
              exact ⟨⟨sender, exchange, secret, accepts, holds, computed⟩, reply⟩
            · contradiction
            · contradiction

theorem run_keysExplained (sodium : Sodium) (memory : Nat → Memory) (actions : List Action) :
    Explained (KeysExplained sodium) ((World.initial memory).run sodium actions).log := by
  have start : World.Roles (World.initial memory) ∧
      Explained (KeysExplained sodium) (World.initial memory).log :=
    ⟨World.initial_roles memory, explained_nil⟩
  have preserves : ∀ world action, World.Roles world ∧ Explained (KeysExplained sodium) world.log →
      World.Roles (world.step sodium action) ∧
      Explained (KeysExplained sodium) (world.step sodium action).log := by
    intro world action invariant
    obtain ⟨roles, explained⟩ := invariant
    obtain ⟨roles', party, own, events, log, effect⟩ := World.step_log sodium roles action
    refine ⟨roles', ?_⟩
    rw [log]
    exact explained.append (effect.keysExplained world.log)
  exact (foldl_preserves preserves actions start).2

/-- Keys are emitted only when they are computed from an exchange key in a
message of the full size, from a trusted sender and with a valid signature, and
the message that the party checked last is that one. -/
theorem emitted_keys_authenticated {sodium : Sodium} {memory : Nat → Memory} {actions : List Action}
    {before after : List Entry} {party : Party} {own : KeyPair} {send receive : Bytes}
    (emitted : ((World.initial memory).run sodium actions).log =
      before ++ ⟨party, .emitted own send receive⟩ :: after) :
    ∃ message, latest (messageOf party) before = some message ∧
      Justifies sodium party.serverSide message own send receive := by
  obtain ⟨message, checked, justified, _⟩ :=
    run_keysExplained sodium memory actions before _ after emitted own send receive rfl
  exact ⟨message, checked, justified⟩

theorem emitted_keys_authenticated_query : ∃ before own send receive after message,
    ((World.initial fun _ => someMemory).run Sodium.transparent
      (uses 1 (offersExchange (Sodium.pairOf serverSecret)) ++
      [⟨1, .incoming (trusting [Sodium.publicOf clientSecret]) someMemory
        [sentBy clientSecret keyExchangeQuery]⟩])).log =
      before ++ ⟨.handler 1 0, .emitted own send receive⟩ :: after ∧
    latest (messageOf (.handler 1 0)) before = some message ∧
    Justifies Sodium.transparent true message own send receive := by
  have query : [sentBy clientSecret keyExchangeQuery].flatten =
      keyExchangeQuery :: bodyOf clientSecret keyExchangeQuery :=
    List.flatten_singleton.trans (sentBy_cons _ _)
  generalize start : (World.initial fun _ => someMemory).run Sodium.transparent
    (uses 1 (offersExchange (Sodium.pairOf serverSecret))) = world
  have serving : (world.nodes 1).server = some (Sodium.pairOf serverSecret) := by rw [← start]; rfl
  have running : (world.nodes 1).crashed = false := by rw [← start]; rfl
  have first : (world.nodes 1).handlers = 0 := by rw [← start]; rfl
  have empty : world.log = [] := by rw [← start]; rfl
  have log := (World.step_query someMemory running serving query (exchangeKeys_transparent _)
    (trusting_undisturbed [Sodium.publicOf clientSecret]) rfl (trusting_trusted List.mem_cons_self)
    (transparent_signsFor _ _)).2
  obtain ⟨send, receive, computed⟩ : ∃ send receive, commonKeys Sodium.transparent true serverSecret
      (exchangeOf clientSecret) = some (send, receive) := ⟨_, _, rfl⟩
  rw [first, empty, emittedKeys_of_commonKeys computed] at log
  have whole : ((World.initial fun _ => someMemory).run Sodium.transparent
      (uses 1 (offersExchange (Sodium.pairOf serverSecret)) ++
      [⟨1, .incoming (trusting [Sodium.publicOf clientSecret]) someMemory
        [sentBy clientSecret keyExchangeQuery]⟩])).log =
      [⟨.handler 1 0, .validating _ _ _⟩, ⟨.handler 1 0, .signed _ _⟩] ++
        ⟨.handler 1 0, .emitted _ send receive⟩ :: [⟨.handler 1 0, .written _⟩] :=
    (congrArg World.log
      ((World.run_append _ _ _).trans (congrArg (World.run _ · _) start))).trans log
  obtain ⟨message, checked, justified⟩ := emitted_keys_authenticated whole
  exact ⟨_, _, _, _, _, message, whole, checked, justified⟩

end Cscrypto.Gui
