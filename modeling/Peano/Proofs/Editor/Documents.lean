import Mathlib.Data.List.Induction
import Peano.Editor.Server
namespace Peano.Editor
open List
open Option (elim_some map_some)

/-- What an editor tells about documents and settings. -/
inductive Notice where
  | opened | changed | closed | configured
  deriving DecidableEq, Repr

def Notice.method : Notice → String
  | opened => "textDocument/didOpen"
  | changed => "textDocument/didChange"
  | closed => "textDocument/didClose"
  | configured => "workspace/didChangeConfiguration"

/-- What may happen to a server: it is told something, or the analysis of an edit is started, which may
have been due for a long time. -/
inductive Event where
  | told (notice : Notice) (id params : Option Json)
  | fired (limit : Limit) (uri : String) (edit : Nat)

namespace Event

variable (cwd uri : String)

def opening? : Event → Option OpenParams
  | told .opened _ params =>
    (params.bind OpenParams.ofJson?).filter fun p => Uri.canonical cwd p.uri == uri && uri != ""
  | _ => none

def closes : Event → Bool
  | told .closed _ params => (params.bind closeUri?).any fun u => Uri.canonical cwd u == uri
  | _ => false

def changes : Event → List Change
  | told .changed _ params =>
    match params.bind ChangeParams.ofJson? with
    | some p => if Uri.canonical cwd p.uri == uri then p.changes else []
    | none => []
  | _ => []

def Keeps (e : Event) : Prop := e.opening? cwd uri = none ∧ e.closes cwd uri = false

variable {cwd uri}

theorem opening?_of_closes {e : Event} (h : e.closes cwd uri) : e.opening? cwd uri = none := by
  rcases e with ⟨_ | _ | _ | _, id, params⟩ | ⟨limit, other, edit⟩
  · exact absurd h Bool.false_ne_true
  all_goals rfl

end Event

namespace Server

def meet (s : Server) : Event → Server × List Outgoing
  | .told notice id params =>
    let (s, sent, _) := s.handle ⟨id, notice.method, params⟩
    (s, sent)
  | .fired limit uri edit => s.analyze limit uri edit

def run (s : Server) (events : List Event) : Server := events.foldl (fun s e => (s.meet e).1) s

def fresh (s : Server) : Server := { s with isDown := false, documents := [] }

end Server

/-- What a snapshot says about the document, which stays when its logs are stopped. -/
def Snapshot.finding (shot : Snapshot) : Int × UInt64 × Program.Compiled :=
  (shot.version, shot.generation, shot.compiled)

namespace Server

section Documents

variable (s : Server) (uri : String)

theorem find?_put (d : Document) : (s.put d).find? uri = if d.uri = uri then some d else s.find? uri := by
  unfold find? put
  rw [find?_append, find?_filter, find?_singleton]
  by_cases same : d.uri = uri
  · rw [if_pos same, if_pos (beq_iff_eq.2 same), Option.or_eq_right_of_none]
    rw [find?_eq_none]
    grind
  · rw [if_neg same, if_neg (by simpa using same), Option.or_none]
    congr 1
    funext x
    grind

theorem find?_put_schedule (d : Document) :
    (s.put d.schedule).find? uri = if d.uri = uri then some d.schedule else s.find? uri :=
  s.find?_put uri d.schedule

theorem find?_without (uri' : String) : { s with documents := s.documents.filter (·.uri != uri') }.find? uri =
      if uri' = uri then none else s.find? uri := by
  unfold find?
  rw [find?_filter]
  split
  · rw [find?_eq_none]
    grind
  · congr 1
    funext x
    grind

theorem find?_map {f : Document → Document} (same : ∀ d, (f d).uri = d.uri) :
    { s with documents := s.documents.map f }.find? uri = (s.find? uri).map f := by
  unfold find?
  rw [List.find?_map]
  congr 2
  funext d
  rw [Function.comp_apply, same]

theorem find?_reanalyzeAll : s.reanalyzeAll.find? uri =
      (s.find? uri).map fun d => { d.stop with session := s.newSession d.uri }.schedule :=
  s.find?_map uri fun _ => rfl

variable {s uri}

theorem uri_of_find? {d : Document} (h : s.find? uri = some d) : d.uri = uri := by
  simpa using find?_some h

end Documents

def reconfigured (s : Server) (settings : Option Json) : Server :=
  if (s.configureBy settings).2 then (s.configureBy settings).1.reanalyzeAll
  else (s.configureBy settings).1

section Notices

variable {s : Server} (up : s.isDown = false) (id params : Option Json)
include up

theorem meet_told (notice : Notice) :
    s.meet (.told notice id params) = s.handleUp ⟨id, notice.method, params⟩ := by
  have going : notice.method ≠ "exit" := by cases notice <;> decide
  rw [meet, handle, if_neg going, up]
  rfl

theorem meet_opened : s.meet (.told .opened id params) =
    ((params.bind OpenParams.ofJson?).elim s s.openDocument, []) := by
  rw [meet_told up]
  rfl

theorem meet_changed : s.meet (.told .changed id params) =
    ((params.bind ChangeParams.ofJson?).elim s s.changeDocument, []) := by
  rw [meet_told up]
  rfl

theorem meet_closed : s.meet (.told .closed id params) =
    (params.bind closeUri?).elim (s, []) s.closeDocument := by
  rw [meet_told up]
  rfl

theorem meet_configured : s.meet (.told .configured id params) =
    ((params.bind configuration?).elim s s.reconfigured, []) := by
  rw [meet_told up]
  cases known : params.bind configuration? with
  | none => simp [handleUp, Notice.method, known]
  | some settings => simp [handleUp, Notice.method, known, reconfigured]

end Notices

theorem configureBy_frame (s : Server) (settings : Option Json) :
    (s.configureBy settings).1.cwd = s.cwd ∧ (s.configureBy settings).1.isDown = s.isDown ∧
      (s.configureBy settings).1.documents = s.documents := by
  unfold configureBy
  split <;> exact ⟨rfl, rfl, rfl⟩

theorem reconfigured_frame (s : Server) (settings : Option Json) :
    (s.reconfigured settings).cwd = s.cwd ∧ (s.reconfigured settings).isDown = s.isDown := by
  obtain ⟨cwd, down, -⟩ := s.configureBy_frame settings
  unfold reconfigured
  split <;> exact ⟨cwd, down⟩

def compiled (s : Server) (d : Document) : Except Program.Error Program.Compiled :=
  Program.compile 0 (Source.File.make d.session.name d.text true) d.session.options s.exercise

structure Analyses (s : Server) (d : Document) (shot : Snapshot) : Prop where
  compiled : s.compiled d = .ok shot.compiled
  version : shot.version = d.version

def publication (s : Server) (d : Document) (shot : Snapshot) : Outgoing :=
  .publish d.uri (some d.version) (markers shot.compiled s.exercise)

theorem publishAnalysis_spec (s : Server) (d : Document) (generation : UInt64) (c : Program.Compiled)
    (logs : List LogState) : ∃ requests watched, (s.publishAnalysis d generation c logs).1 =
      { s.put { d with isDue := false, snapshot := some ⟨d.version, generation, c, logs, watched⟩ } with requests } ∧
    .publish d.uri (some d.version) (markers c s.exercise) ∈ (s.publishAnalysis d generation c logs).2 := by
  let shot : Snapshot := ⟨d.version, generation, c, logs, s.canRefresh && logs.contains .running⟩
  let next := s.put { d with isDue := false, snapshot := some shot }
  let published := Outgoing.publish d.uri (some d.version) (markers c s.exercise)
  obtain ⟨seen, made⟩ : ∃ seen : Bool, s.publishAnalysis d generation c logs =
      if s.canRefresh && seen then (next.askRefresh.1, published :: next.askRefresh.2)
      else (next, [published]) := ⟨_, rfl⟩
  rw [made]
  split
  · exact ⟨s.requests + 1, _, rfl, mem_cons_self⟩
  · exact ⟨s.requests, _, rfl, mem_cons_self⟩

theorem analyze_stale {s : Server} {uri : String} {edit : Nat} (limit : Limit)
    (stale : ∀ d, s.find? uri = some d → d.edit ≠ edit) : s.analyze limit uri edit = (s, []) := by
  unfold analyze
  split
  · rfl
  next d held => rw [if_pos (stale d held)]

theorem fired_cases (s : Server) (limit : Limit) (uri : String) (edit : Nat) :
    s.analyze limit uri edit = (s, []) ∨ ∃ d, s.find? uri = some d ∧ d.edit = edit := by
  by_cases held : ∃ d, s.find? uri = some d ∧ d.edit = edit
  · exact .inr held
  · exact .inl (analyze_stale limit fun d found current => held ⟨d, found, current⟩)

/-- The analysis of the last edit is taken in, or it fails for the exercise, or all breaks off. -/
theorem analyze_cases {s : Server} {uri : String} {d : Document} (limit : Limit)
    (held : s.find? uri = some d) : (∃ session generation c, s.compiled d = .ok c ∧
      s.analyze limit uri d.edit = s.publishAnalysis { d with session } generation c (startLogs c limit)) ∨
    (∃ why session sent, s.compiled d = .error why ∧ s.analyze limit uri d.edit =
      (s.put { d with session, isDue := false, snapshot := d.snapshot.map Snapshot.kill }, sent)) ∨
    ∃ why sent, s.compiled d = .error why ∧ s.analyze limit uri d.edit = (s, sent) := by
  have outcome : (d.session.begin.1.finish d.session.begin.2 d.text s.exercise).2 = s.compiled d := by
    unfold Program.Session.finish compiled
    dsimp only
    split <;> rfl
  rw [analyze, held, ← outcome]
  dsimp only
  rw [if_neg (not_not_intro rfl)]
  cases (d.session.begin.1.finish d.session.begin.2 d.text s.exercise).2 with
  | ok c => exact .inl ⟨_, _, c, rfl, rfl⟩
  | error e =>
    cases e with
    | exercise e why => exact .inr (.inl ⟨_, _, _, rfl, rfl⟩)
    | incomparable why => exact .inr (.inr ⟨_, _, rfl, rfl⟩)

theorem analyze_held {s : Server} {uri : String} {d : Document} (limit : Limit)
    (held : s.find? uri = some d) :
    (s.analyze limit uri d.edit).1.cwd = s.cwd ∧ (s.analyze limit uri d.edit).1.isDown = s.isDown ∧
      ∃ d' : Document, d'.text = d.text ∧
        (∀ other, (s.analyze limit uri d.edit).1.find? other = if uri = other then some d' else s.find? other) ∧
        ((∃ why, s.compiled d = .error why) ∧
            d'.snapshot.map Snapshot.finding = d.snapshot.map Snapshot.finding ∨
          ∃ shot, d'.snapshot = some shot ∧ s.Analyses d shot ∧
            s.publication d shot ∈ (s.analyze limit uri d.edit).2) := by
  have named := uri_of_find? held
  rcases analyze_cases limit held with ⟨session, generation, c, ran, made⟩ |
    ⟨why, session, sent, failed, made⟩ | ⟨why, sent, failed, made⟩
  · obtain ⟨requests, watched, state, sent⟩ :=
      s.publishAnalysis_spec { d with session } generation c (startLogs c limit)
    let shot : Snapshot := ⟨d.version, generation, c, startLogs c limit, watched⟩
    rw [made, state]
    refine ⟨rfl, rfl, { d with session, isDue := false, snapshot := some shot }, rfl, fun other => ?_, ?_⟩
    · exact (s.find?_put other _).trans (by rw [named])
    · exact .inr ⟨shot, rfl, ⟨ran, rfl⟩, sent⟩
  · rw [made]
    refine ⟨rfl, rfl, { d with session, isDue := false, snapshot := d.snapshot.map Snapshot.kill }, rfl,
      fun other => ?_, .inl ⟨⟨why, failed⟩, ?_⟩⟩
    · exact (s.find?_put other _).trans (by rw [named])
    · rw [Option.map_map]
      rfl
  · rw [made]
    refine ⟨rfl, rfl, d, rfl, fun other => ?_, .inl ⟨⟨why, failed⟩, rfl⟩⟩
    by_cases same : uri = other
    · rw [if_pos same, ← same]
      exact held
    · rw [if_neg same]

inductive Becomes (s : Server) (uri : String) (e : Event) : Option Document → Prop
  | opened {p : OpenParams} {d : Document} (opening : e.opening? s.cwd uri = some p)
    (text : d.text = p.text) (new : d.snapshot = none) : Becomes s uri e (some d)
  | closed (closes : e.closes s.cwd uri = true) : Becomes s uri e none
  | absent (keeps : e.Keeps s.cwd uri) (unknown : s.find? uri = none) : Becomes s uri e none
  | kept {d d' : Document} (keeps : e.Keeps s.cwd uri) (held : s.find? uri = some d)
    (text : d'.text = applyChanges d.text (e.changes s.cwd uri))
    (shot : d'.snapshot.map Snapshot.finding = d.snapshot.map Snapshot.finding) :
    Becomes s uri e (some d')
  | analysed {limit : Limit} {d d' : Document} {shot : Snapshot} (fired : e = .fired limit uri d.edit)
    (held : s.find? uri = some d) (text : d'.text = d.text) (new : d'.snapshot = some shot)
    (analyses : s.Analyses d shot) (sent : s.publication d shot ∈ (s.meet e).2) :
    Becomes s uri e (some d')

/-- It makes such a document. -/
def Steps (s : Server) (uri : String) (e : Event) : Prop := s.Becomes uri e ((s.meet e).1.find? uri)

section Step

variable {s : Server} {uri : String} {e : Event}

theorem Becomes.text_eq {d? : Option Document} (h : s.Becomes uri e d?) :
    d?.map Document.text = (e.opening? s.cwd uri).elim (if e.closes s.cwd uri then none
        else (s.find? uri).map fun d => applyChanges d.text (e.changes s.cwd uri)) fun p => some p.text := by
  cases h with
  | opened opening text _ => rw [opening, map_some, text, elim_some]
  | closed closes => rw [Event.opening?_of_closes closes, Option.elim_none, if_pos closes, Option.map_none]
  | absent keeps unknown => simp [keeps.1, unknown]
  | kept keeps held text _ => simp [keeps.1, keeps.2, held, text]
  | analysed fired held text _ _ _ =>
    subst fired
    rw [held, map_some, text]
    rfl

/-- Documents may have been changed in what matters neither to their texts nor to their snapshots. -/
theorem becomes_of_map {f : Document → Document} (keeps : e.Keeps s.cwd uri)
    (still : e.changes s.cwd uri = [])
    (same : ∀ d, (f d).text = d.text ∧ (f d).snapshot.map Snapshot.finding = d.snapshot.map Snapshot.finding) :
    s.Becomes uri e ((s.find? uri).map f) := by
  cases held : s.find? uri with
  | none => exact .absent keeps held
  | some d => exact .kept keeps held ((same d).1.trans (by rw [still]; rfl)) (same d).2

theorem becomes_same (keeps : e.Keeps s.cwd uri) (still : e.changes s.cwd uri = []) :
    s.Becomes uri e (s.find? uri) := by
  have same := becomes_of_map (f := id) keeps still fun _ => ⟨rfl, rfl⟩
  rwa [Option.map_id] at same

variable (up : s.isDown = false) (id params : Option Json)
include up

theorem becomes_opened : s.Steps uri (.told .opened id params) := by
  unfold Steps
  rw [meet_opened up]
  cases read : params.bind OpenParams.ofJson? with
  | none => exact becomes_same ⟨by simp [Event.opening?, read], rfl⟩ rfl
  | some p =>
    by_cases here : Uri.canonical s.cwd p.uri = uri ∧ uri ≠ ""
    · obtain ⟨rfl, named⟩ := here
      have opening : (Event.told .opened id params).opening? s.cwd (Uri.canonical s.cwd p.uri) = some p := by
        simp [Event.opening?, read, named]
      rw [elim_some, openDocument, if_neg (by simpa using named), find?_put_schedule, if_pos rfl]
      exact .opened opening rfl rfl
    · have other : s.find? uri = (s.openDocument p).find? uri := by
        unfold openDocument
        dsimp only
        split
        · rfl
        next named =>
          have away : Uri.canonical s.cwd p.uri ≠ uri := by
            rintro rfl
            exact here ⟨rfl, by simpa using named⟩
          rw [find?_put_schedule, if_neg away]
      rw [elim_some, ← other]
      refine becomes_same ⟨?_, rfl⟩ rfl
      simpa [Event.opening?, read] using here

theorem becomes_changed : s.Steps uri (.told .changed id params) := by
  unfold Steps
  rw [meet_changed up]
  cases read : params.bind ChangeParams.ofJson? with
  | none => exact becomes_same ⟨rfl, rfl⟩ (by simp [Event.changes, read])
  | some p =>
    rw [elim_some, changeDocument]
    have still : Uri.canonical s.cwd p.uri ≠ uri →
        (Event.told .changed id params).changes s.cwd uri = [] := by
      intro other
      simp [Event.changes, read, other]
    cases held : s.find? (Uri.canonical s.cwd p.uri) with
    | none =>
      by_cases here : Uri.canonical s.cwd p.uri = uri
      · rw [here] at held
        rw [held]
        exact .absent ⟨rfl, rfl⟩ held
      · exact becomes_same ⟨rfl, rfl⟩ (still here)
    | some d =>
      have named := uri_of_find? held
      by_cases here : Uri.canonical s.cwd p.uri = uri
      · rw [find?_put_schedule, if_pos (named.trans here)]
        rw [here] at held
        exact .kept ⟨rfl, rfl⟩ held (by simp [Event.changes, read, here, Document.schedule]) rfl
      · rw [find?_put_schedule, if_neg fun same => here (named.symm.trans same)]
        exact becomes_same ⟨rfl, rfl⟩ (still here)

theorem becomes_closed : s.Steps uri (.told .closed id params) := by
  unfold Steps
  rw [meet_closed up]
  cases read : params.bind closeUri? with
  | none => exact becomes_same ⟨rfl, by simp [Event.closes, read]⟩ rfl
  | some u =>
    by_cases here : Uri.canonical s.cwd u = uri
    · have gone : (s.closeDocument u).1.find? uri = none := by
        unfold closeDocument
        dsimp only
        split
        next unknown => rwa [here] at unknown
        · rw [find?_without, if_pos here]
      rw [elim_some, gone]
      exact .closed (by simp [Event.closes, read, here])
    · have other : (s.closeDocument u).1.find? uri = s.find? uri := by
        unfold closeDocument
        dsimp only
        split
        · rfl
        · rw [find?_without, if_neg here]
      rw [elim_some, other]
      exact becomes_same ⟨rfl, by simp [Event.closes, read, here]⟩ rfl

theorem becomes_configured : s.Steps uri (.told .configured id params) := by
  unfold Steps
  rw [meet_configured up]
  cases params.bind configuration? with
  | none => exact becomes_same ⟨rfl, rfl⟩ rfl
  | some settings =>
    have documents := (s.configureBy_frame settings).2.2
    have found : (s.configureBy settings).1.find? uri = s.find? uri := by rw [find?, documents, find?]
    rw [elim_some, reconfigured]
    split
    · rw [find?_reanalyzeAll, found]
      refine becomes_of_map ⟨rfl, rfl⟩ rfl fun d => ⟨rfl, ?_⟩
      exact (Option.map_map ..).trans rfl
    · rw [found]
      exact becomes_same ⟨rfl, rfl⟩ rfl

omit up in
theorem becomes_fired (limit : Limit) (other : String) (edit : Nat) : s.Steps uri (.fired limit other edit) := by
  rw [Steps, meet]
  rcases s.fired_cases limit other edit with stale | ⟨d, held, rfl⟩
  · rw [stale]
    exact becomes_same ⟨rfl, rfl⟩ rfl
  · obtain ⟨-, -, d', text, found, shot⟩ := analyze_held limit held
    rw [found]
    split
    next same =>
      subst same
      rcases shot with ⟨-, shot⟩ | ⟨shot, new, analyses, sent⟩
      · exact .kept ⟨rfl, rfl⟩ held text shot
      · exact .analysed rfl held text new analyses sent
    · exact becomes_same ⟨rfl, rfl⟩ rfl

theorem meet_becomes (e : Event) : s.Steps uri e := by
  rcases e with ⟨notice, id, params⟩ | ⟨limit, other, edit⟩
  · cases notice with
    | opened => exact becomes_opened up id params
    | changed => exact becomes_changed up id params
    | closed => exact becomes_closed up id params
    | configured => exact becomes_configured up id params
  · exact becomes_fired limit other edit

omit up in
theorem frame_elim {α : Type} {x : Option α} {f : α → Server}
    (h : ∀ a, (f a).cwd = s.cwd ∧ (f a).isDown = s.isDown) :
    (x.elim s f).cwd = s.cwd ∧ (x.elim s f).isDown = s.isDown := by
  cases x with
  | none => exact ⟨rfl, rfl⟩
  | some a => exact h a

theorem meet_frame (e : Event) : (s.meet e).1.cwd = s.cwd ∧ (s.meet e).1.isDown = s.isDown := by
  rcases e with ⟨notice, id, params⟩ | ⟨limit, other, edit⟩
  · cases notice with
    | opened =>
      rw [meet_opened up]
      refine frame_elim fun p => ?_
      rw [openDocument]
      split <;> exact ⟨rfl, rfl⟩
    | changed =>
      rw [meet_changed up]
      refine frame_elim fun p => ?_
      rw [changeDocument]
      split <;> exact ⟨rfl, rfl⟩
    | closed =>
      rw [meet_closed up]
      cases params.bind closeUri? with
      | none => exact ⟨rfl, rfl⟩
      | some u =>
        rw [elim_some, closeDocument]
        split <;> exact ⟨rfl, rfl⟩
    | configured =>
      rw [meet_configured up]
      exact frame_elim s.reconfigured_frame
  · rw [meet]
    rcases s.fired_cases limit other edit with stale | ⟨d, held, rfl⟩
    · rw [stale]
      exact ⟨rfl, rfl⟩
    · obtain ⟨cwd, down, -⟩ := analyze_held limit held
      exact ⟨cwd, down⟩

end Step

section Run

variable (s : Server) (uri : String)

theorem run_snoc (events : List Event) (e : Event) : s.run (events ++ [e]) = ((s.run events).meet e).1 := by
  rw [run, foldl_append]
  rfl

theorem run_frame (events : List Event) :
    (s.fresh.run events).cwd = s.cwd ∧ (s.fresh.run events).isDown = false := by
  induction events using List.reverseRecOn with
  | nil => exact ⟨rfl, rfl⟩
  | append_singleton events e ih =>
    obtain ⟨cwd, up⟩ := ih
    rw [run_snoc]
    obtain ⟨cwd', up'⟩ := meet_frame up e
    exact ⟨cwd'.trans cwd, up'.trans up⟩

end Run

/-- The text that a document was opened with and that was changed since, as events tell. -/
def Tells (cwd uri : String) (events : List Event) (text : Bytes) : Prop :=
  ∃ before e after p, events = before ++ e :: after ∧ e.opening? cwd uri = some p ∧
    (∀ e ∈ after, e.Keeps cwd uri) ∧ text = applyChanges p.text (after.flatMap (Event.changes cwd uri))

section Tells

variable {cwd uri : String} {events : List Event} {e : Event} {text : Bytes}

theorem applyChanges_append (first then' : List Change) :
    applyChanges text (first ++ then') = applyChanges (applyChanges text first) then' :=
  foldl_append

theorem not_tells_nil : ¬ Tells cwd uri [] text := by
  rintro ⟨before, e, after, p, none, -⟩
  exact append_ne_nil_of_right_ne_nil before (cons_ne_nil e after) none.symm

/-- What the last event adds: it opens the document, or leaves it open. -/
theorem tells_snoc_iff : Tells cwd uri (events ++ [e]) text ↔
    (∃ p, e.opening? cwd uri = some p ∧ p.text = text) ∨
      e.Keeps cwd uri ∧ ∃ old, Tells cwd uri events old ∧ applyChanges old (e.changes cwd uri) = text := by
  constructor
  · rintro ⟨before, opening, after, p, split, opens, keeps, rfl⟩
    rcases eq_nil_or_concat after with rfl | ⟨after, last, rfl⟩
    · obtain ⟨-, same⟩ := append_inj' split rfl
      obtain ⟨rfl, -⟩ := cons_eq_cons.1 same
      exact .inl ⟨p, opens, rfl⟩
    · rw [concat_eq_append] at *
      rw [← cons_append, ← append_assoc] at split
      obtain ⟨rfl, same⟩ := append_inj' split rfl
      obtain ⟨rfl, -⟩ := cons_eq_cons.1 same
      have kept : ∀ e' ∈ after, e'.Keeps cwd uri := fun e' mem => keeps e' (mem_append_left _ mem)
      refine .inr ⟨keeps e (by simp), _, ⟨before, opening, after, p, rfl, opens, kept, rfl⟩, ?_⟩
      rw [flatMap_append, flatMap_singleton, applyChanges_append]
  · rintro (⟨p, opens, rfl⟩ | ⟨keeps, old, ⟨before, opening, after, p, rfl, opens, kept, rfl⟩, rfl⟩)
    · exact ⟨events, e, [], p, rfl, opens, by simp, rfl⟩
    · refine ⟨before, opening, after ++ [e], p, by simp, opens, ?_, ?_⟩
      · intro e' mem
        rcases mem_append.1 mem with mem | mem
        · exact kept e' mem
        · exact mem_singleton.1 mem ▸ keeps
      · rw [flatMap_append, flatMap_singleton, applyChanges_append]

end Tells

section Follow

variable (s : Server) (uri : String)

/-- Some time ago an analysis was started, of the document as it then was, and it gave a snapshot and
what was sent along with it. The document has been open since. -/
def Produced (events : List Event) (shot : Snapshot) : Prop :=
  ∃ before limit held after, events = before ++ .fired limit uri held.edit :: after ∧
    (s.run before).find? uri = some held ∧ (s.run before).Analyses held shot ∧
    (s.run before).publication held shot ∈ ((s.run before).meet (.fired limit uri held.edit)).2 ∧
    (∃ d, (s.run (before ++ [.fired limit uri held.edit])).find? uri = some d ∧
      d.snapshot.map Snapshot.finding = some shot.finding) ∧
    ∀ e ∈ after, e.Keeps s.cwd uri

variable {s uri}

theorem Produced.snoc {events : List Event} {shot shot' : Snapshot} {e : Event}
    (produced : s.Produced uri events shot) (same : shot'.finding = shot.finding)
    (keeps : e.Keeps s.cwd uri) : s.Produced uri (events ++ [e]) shot' := by
  obtain ⟨before, limit, held, after, rfl, found, analyses, sent, made, kept⟩ := produced
  obtain ⟨version, -, compiled⟩ : shot'.version = shot.version ∧ shot'.generation = shot.generation ∧
      shot'.compiled = shot.compiled := by
    simpa [Snapshot.finding] using same
  refine ⟨before, limit, held, after ++ [e], by simp, found, ?_, ?_, same ▸ made, ?_⟩
  · exact ⟨compiled ▸ analyses.compiled, version.trans analyses.version⟩
  · rwa [publication, compiled]
  · intro e' mem
    rcases mem_append.1 mem with mem | mem
    · exact kept e' mem
    · exact mem_singleton.1 mem ▸ keeps

variable (s uri)

theorem text_iff_tells (events : List Event) (text : Bytes) :
    ((s.fresh.run events).find? uri).map Document.text = some text ↔ Tells s.cwd uri events text := by
  induction events using List.reverseRecOn generalizing text with
  | nil => exact iff_of_false (Option.some_ne_none text).symm not_tells_nil
  | append_singleton events e ih =>
    obtain ⟨cwd, up⟩ := s.run_frame events
    rw [run_snoc, tells_snoc_iff, (meet_becomes up e).text_eq, cwd]
    cases opening : e.opening? s.cwd uri with
    | some p => simp [Event.Keeps, opening]
    | none =>
      cases closes : e.closes s.cwd uri with
      | true => simp [Event.Keeps, closes]
      | false =>
        simp [Event.Keeps, closes, opening, ← ih]

theorem snapshot_produced (events : List Event) {d : Document} {shot : Snapshot}
    (found : (s.fresh.run events).find? uri = some d) (has : d.snapshot = some shot) :
    s.fresh.Produced uri events shot := by
  induction events using List.reverseRecOn generalizing d shot with
  | nil => exact absurd found (Option.some_ne_none d).symm
  | append_singleton events e ih =>
    obtain ⟨cwd, up⟩ := s.run_frame events
    have becomes : (s.fresh.run events).Steps uri e := meet_becomes up e
    rw [run_snoc] at found
    rw [Steps, found] at becomes
    cases becomes with
    | opened _ _ new => exact absurd (new.symm.trans has) (Option.some_ne_none shot).symm
    | @kept old _ keeps held _ same =>
      rw [has] at same
      obtain ⟨shot', had, same⟩ := Option.map_eq_some_iff.1 same.symm
      rw [cwd] at keeps
      exact (ih held had).snoc same.symm keeps
    | @analysed limit old _ new fired held _ new' analyses sent =>
      obtain rfl := Option.some.inj (new'.symm.trans has)
      subst fired
      refine ⟨events, limit, old, [], rfl, held, analyses, sent, ⟨d, ?_, ?_⟩, by simp⟩
      · rw [run_snoc, found]
      · rw [has, map_some]

/-- A document has the text it was opened with and changed to. Nothing comes of analyses of other edits
than the last one, or of closed documents. A snapshot comes from an analysis of the document as it was,
and the analysis of the last edit gives one as far as the document compiles. -/
theorem documents_follow (events : List Event) :
    (∀ text, ((s.fresh.run events).find? uri).map Document.text = some text ↔ Tells s.cwd uri events text) ∧
    (∀ limit edit, (∀ d, (s.fresh.run events).find? uri = some d → d.edit ≠ edit) →
      (s.fresh.run events).meet (.fired limit uri edit) = (s.fresh.run events, [])) ∧
    (∀ d shot, (s.fresh.run events).find? uri = some d → d.snapshot = some shot →
      s.fresh.Produced uri events shot) ∧
    ∀ limit d c, (s.fresh.run events).find? uri = some d → (s.fresh.run events).compiled d = .ok c →
      ∃ d' shot, ((s.fresh.run events).meet (.fired limit uri d.edit)).1.find? uri = some d' ∧
        d'.snapshot = some shot ∧ shot.compiled = c := by
  refine ⟨s.text_iff_tells uri events, fun limit edit stale => analyze_stale limit stale,
    fun d shot found has => s.snapshot_produced uri events found has, fun limit d c held ran => ?_⟩
  obtain ⟨-, -, d', -, found, ⟨⟨why, failed⟩, -⟩ | ⟨shot, has, analyses, -⟩⟩ := analyze_held limit held
  · exact nomatch ran.symm.trans failed
  · refine ⟨d', shot, ?_, has, ?_⟩
    · rw [meet, found, if_pos rfl]
    · exact Except.ok.inj (analyses.compiled.symm.trans ran)

end Follow

end Server

end Peano.Editor
