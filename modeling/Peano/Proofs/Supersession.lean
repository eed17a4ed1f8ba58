import Mathlib.Data.List.DropRight
import Peano.Program.Session
namespace Peano.Program.Session
open List

/-- What may happen to a session. -/
inductive Event where
  | begun (text : Bytes) (exercise : Option Exercise)
  | compiled (call : Nat)
  | stopped
  | awaited (generation : UInt64)

def Event.isCall : Event → Bool
  | begun .. => true
  | _ => false

structure Call where
  turn : Turn
  text : Bytes
  exercise : Option Exercise

/-- A session, the calls that are still to compile, and the turns handed out so far. -/
structure Shared where
  session : Session
  waiting : List Call := []
  handed : List Turn := []

/-- What has happened since the last call began. -/
def sinceCall (events : List Event) : List Event := events.rtakeWhile (!·.isCall)

theorem finish_switches (s : Session) (turn : Turn) (text : Bytes) (exercise : Option Exercise) :
    (s.finish turn text exercise).1.generation = s.generation ∧
      (s.finish turn text exercise).1.fired = s.fired ∧ (s.finish turn text exercise).1.held = s.held := by
  unfold finish
  dsimp only
  split <;> exact ⟨rfl, rfl, rfl⟩

theorem logs_switches (s : Session) (generation : UInt64) :
    (s.logs generation).1.generation = s.generation ∧
      (s.logs generation).1.fired = s.fired ∧ (s.logs generation).1.held = s.held := by
  unfold logs
  split <;> exact ⟨rfl, rfl, rfl⟩

/-- The turns in the order in which they are handed out. -/
def turn (k : Nat) : Turn := ⟨.ofNat (k + 1), k⟩

theorem turn_injective : turn.Injective := fun _ _ same => congrArg Turn.switch same

namespace Shared

def meet (s : Shared) : Event → Shared
  | .begun text exercise =>
    let (session, turn) := s.session.begin
    ⟨session, s.waiting ++ [⟨turn, text, exercise⟩], s.handed ++ [turn]⟩
  | .compiled call =>
    match s.waiting[call]? with
    | some c => { s with
        session := (s.session.finish c.turn c.text c.exercise).1
        waiting := s.waiting.eraseIdx call }
    | none => s
  | .stopped => { s with session := s.session.stop }
  | .awaited generation => { s with session := (s.session.logs generation).1 }

theorem handed_meet (s : Shared) (e : Event) :
    (s.meet e).handed = if e.isCall then s.handed ++ [s.session.begin.2] else s.handed := by
  cases e with
  | begun | stopped | awaited => rfl
  | compiled call =>
    rw [meet]
    split <;> rfl

/-- All switches have been fired but, if it stands, the newest one, and that one is held. -/
structure Orderly (s : Shared) (stands : Prop) : Prop where
  handed : s.handed = (List.range s.session.fired.length).map turn
  generation : s.session.generation = .ofNat s.session.fired.length
  standing : stands → ∃ k, s.session.fired = List.replicate k true ++ [false] ∧ s.session.held = some k
  fallen : ¬stands → s.session.fired = List.replicate s.session.fired.length true ∧ s.session.held = none

variable {s : Shared} {stands : Prop}

theorem Orderly.fireHeld (h : s.Orderly stands) :
    s.session.fireHeld = List.replicate s.session.fired.length true := by
  unfold Session.fireHeld
  by_cases stand : stands
  · obtain ⟨k, fired, held⟩ := h.standing stand
    rw [held, fired]
    simp [replicate_succ']
  · obtain ⟨fired, held⟩ := h.fallen stand
    rw [held]
    exact fired

/-- Only a call makes a switch stand, and only a stop or a further call makes it fall. -/
theorem Orderly.meet (h : s.Orderly stands) (e : Event) :
    (s.meet e).Orderly (e.isCall ∨ stands ∧ e ≠ .stopped) := by
  have kept {session : Session} {waiting : List Call} (same : session.generation = s.session.generation ∧
      session.fired = s.session.fired ∧ session.held = s.session.held) :
      Orderly ⟨session, waiting, s.handed⟩ stands := by
    obtain ⟨generation, fired, held⟩ := same
    constructor <;> simp only [generation, fired, held]
    exacts [h.handed, h.generation, h.standing, h.fallen]
  cases e with
  | begun text exercise =>
    have fired : (s.meet (.begun text exercise)).session.fired =
        List.replicate s.session.fired.length true ++ [false] :=
      congrArg (· ++ [false]) h.fireHeld
    have count : (s.meet (.begun text exercise)).session.fired.length = s.session.fired.length + 1 := by
      simp [fired]
    have next : s.session.generation + 1 = .ofNat (s.session.fired.length + 1) := by
      rw [h.generation, UInt64.ofNat_add]
      rfl
    refine ⟨?_, by rw [count]; exact next, fun _ => ⟨_, fired, rfl⟩, fun falls => (falls (.inl rfl)).elim⟩
    rw [count, List.range_succ, map_append, ← h.handed, map_singleton, turn, ← next]
    rfl
  | stopped =>
    have count : (s.meet .stopped).session.fired.length = s.session.fired.length := by
      simp [Shared.meet, Session.stop, h.fireHeld]
    refine ⟨by rw [count]; exact h.handed, by rw [count]; exact h.generation, ?_, fun _ => ⟨?_, rfl⟩⟩
    · rintro (call | ⟨-, other⟩)
      · cases call
      · exact (other rfl).elim
    · rw [count]
      exact h.fireHeld
  | compiled call =>
    have still : (Event.isCall (.compiled call) ∨ stands ∧ Event.compiled call ≠ .stopped) = stands := by
      simp [Event.isCall]
    rw [still, Shared.meet]
    split
    · exact kept (finish_switches ..)
    · exact h
  | awaited generation =>
    have still : (Event.isCall (.awaited generation) ∨
        stands ∧ Event.awaited generation ≠ .stopped) = stands := by
      simp [Event.isCall]
    rw [still]
    exact kept (logs_switches ..)

variable (options : Options) (name : String) (events : List Event)

def after : Shared := events.foldl meet ⟨{ options, name }, [], []⟩

theorem after_concat (e : Event) :
    after options name (events ++ [e]) = (after options name events).meet e := by
  rw [after, foldl_concat]
  rfl

/-- Whether the newest switch stands, told from what has happened. -/
theorem stands_concat (e : Event) :
    ((after options name (events ++ [e])).handed ≠ [] ∧ .stopped ∉ sinceCall (events ++ [e])) ↔ (e.isCall ∨
        ((after options name events).handed ≠ [] ∧ .stopped ∉ sinceCall events) ∧ e ≠ .stopped) := by
  rw [after_concat, handed_meet, sinceCall, rtakeWhile_concat, ← sinceCall]
  cases call : e.isCall with
  | true => simp
  | false => simp [and_assoc, @eq_comm _ Event.stopped]

theorem orderly_after : (after options name events).Orderly
    ((after options name events).handed ≠ [] ∧ .stopped ∉ sinceCall events) := by
  induction events using List.reverseRecOn with
  | nil => exact ⟨rfl, rfl, fun stands => (stands.1 rfl).elim, fun _ => ⟨rfl, rfl⟩⟩
  | append_singleton events e ih =>
    rw [stands_concat, after_concat]
    exact ih.meet e

theorem length_handed : (after options name events).handed.length = events.countP Event.isCall := by
  induction events using List.reverseRecOn with
  | nil => rfl
  | append_singleton events e ih =>
    rw [after_concat, handed_meet, countP_append, ← ih]
    cases call : e.isCall <;> simp [call]

theorem Orderly.newest (h : s.Orderly stands) {k : Nat} (count : s.session.fired.length = k + 1) :
    s.handed.getLast? = some (turn k) := by
  rw [h.handed, count, List.range_succ, map_append, map_singleton, getLast?_concat]

theorem Orderly.getLastD (h : s.Orderly stands) :
    (s.handed.map Turn.generation).getLastD 0 = s.session.generation := by
  rw [h.generation]
  cases count : s.session.fired.length with
  | zero => rw [h.handed, count]; rfl
  | succ k => rw [getLastD_eq_getLast?, getLast?_map, h.newest count]; rfl

/-- Of the switches handed out only the newest can stand. -/
theorem Orderly.isKilled_iff (h : s.Orderly stands) {given : Turn} (handed : given ∈ s.handed) :
    s.session.isKilled given.switch = false ↔ s.handed.getLast? = some given ∧ stands := by
  obtain ⟨k, below, rfl⟩ := mem_map.1 (h.handed ▸ handed)
  rw [List.mem_range] at below
  rw [Session.isKilled, show (turn k).switch = k from rfl]
  by_cases stand : stands
  · obtain ⟨n, fired, -⟩ := h.standing stand
    have count : s.session.fired.length = n + 1 := by simp [fired]
    rw [h.newest count, Option.some_inj, turn_injective.eq_iff, fired]
    grind
  · rw [(h.fallen stand).1]
    grind

/-- Generations go up as long as the counter does not run over. -/
theorem Orderly.pairwise_lt (h : s.Orderly stands) (few : s.handed.length < UInt64.size) :
    (s.handed.map Turn.generation).Pairwise (· < ·) := by
  rw [h.handed, length_map, length_range] at few
  rw [h.handed, map_map, pairwise_map]
  refine pairwise_lt_range.imp_of_mem fun {i j} _ below less => ?_
  have := List.mem_range.1 below
  simp only [Function.comp_apply, turn, UInt64.lt_iff_toNat_lt, UInt64.toNat_ofNat_of_lt' (show i + 1 < _ by omega),
    UInt64.toNat_ofNat_of_lt' (show j + 1 < _ by omega)]
  omega

end Shared

/-- In whatever order calls begin, compile, are stopped and awaited: generations go up, until there are too
many to count, no switch that was handed out stands but the newest, which stands until the session is
stopped, and the newest generation alone is current. -/
theorem newest_switch_stands (options : Options) (name : String) (events : List Event) :
    let s := Shared.after options name events
    (events.countP Event.isCall < UInt64.size → (s.handed.map Turn.generation).Pairwise (· < ·)) ∧
      (∀ turn ∈ s.handed, s.session.isKilled turn.switch = false ↔
        s.handed.getLast? = some turn ∧ .stopped ∉ sinceCall events) ∧
      ∀ g, s.session.isCurrent g = true ↔ g = (s.handed.map Turn.generation).getLastD 0 := by
  intro s
  have orderly : s.Orderly _ := Shared.orderly_after options name events
  refine ⟨fun few => ?_, fun turn handed => ?_, fun g => ?_⟩
  · exact orderly.pairwise_lt (Shared.length_handed options name events ▸ few)
  · rw [orderly.isKilled_iff handed]
    exact and_congr_right fun _ => and_iff_right (List.ne_nil_of_mem handed)
  · rw [orderly.getLastD, Session.isCurrent, beq_iff_eq]
    exact eq_comm

/-- The first of three calls compiles last, long after it has been overtaken. -/
def overtaken : List Event :=
  [.begun [] none, .begun [] none, .stopped, .begun [] none, .compiled 0]

theorem overtaken_switches :
    let s := Shared.after {} "a.peano" overtaken
    s.handed = [⟨1, 0⟩, ⟨2, 1⟩, ⟨3, 2⟩] ∧ (s.handed.map Turn.generation).Pairwise (· < ·) ∧
      s.session.isKilled 0 = true ∧ s.session.isKilled 2 = false ∧ s.session.isCurrent 3 = true := by
  intro s
  have handed : s.handed = [⟨1, 0⟩, ⟨2, 1⟩, ⟨3, 2⟩] := rfl
  have first : ⟨1, 0⟩ ∈ s.handed := by rw [handed]; decide
  have last : ⟨3, 2⟩ ∈ s.handed := by rw [handed]; decide
  obtain ⟨up, stands, current⟩ := newest_switch_stands {} "a.peano" overtaken
  refine ⟨handed, up (by decide), ?_, (stands _ last).2 ⟨rfl, ?_⟩, (current 3).2 rfl⟩
  · rw [← Bool.not_eq_false, stands _ first, show s.handed.getLast? = some ⟨3, 2⟩ from rfl]
    simp
  · simp [sinceCall, overtaken, Event.isCall, List.rtakeWhile]

end Peano.Program.Session
