import MdxPages.Proofs.Convert.Outline
import MdxPages.Proofs.Results
import MdxPages.Proofs.Tree.Reference

/-!
# Proofs/Convert/Account — a conversion does the same from every state

A conversion `Performs` an account if, from every state, it gives the answer of the account, notes
its mentions in the state of the file, and hands its emissions to the emitter.  The log is left out:
what an emitter logs is its own affair.  An account says nothing about the state or the emitter, so
a conversion that performs one cannot depend on either.
-/

namespace MdxPages.Convert

open MdxPages.Source

variable {σ α β γ : Type}

/-! ## Conversions as functions of the state

A conversion maps a session to an answer and a session.  The lemmas of this section run its steps,
so that later ones need not unfold them. -/

theorem pure_apply (a : α) (s : Session σ) : (pure a : Conversion σ α) s = (.ok a, s) := rfl

/-- The file with an import, unless its name or its path is empty. -/
def FileState.importing (name path : String) (file : FileState) : FileState :=
  if name.isEmpty || path.isEmpty then file
  else { file with imports := file.imports.put name path }

/-- Registering an import changes the imports of the file and nothing else. -/
theorem registerImport_apply (name path : String) (s : Session σ) :
    (registerImport name path : Conversion σ Unit) s =
      (.ok (), { s with file := s.file.importing name path }) := by
  unfold registerImport FileState.importing
  split <;> rfl

/-- A record is added to the log, and nothing else happens. -/
theorem record_apply (level : Level) (message : String) (s : Session σ) :
    (record level message : Conversion σ Unit) s =
      (.ok (), { s with log := s.log ++ [⟨level, loggerName, message⟩] }) := rfl

theorem get_apply (s : Session σ) : (get : Conversion σ (Session σ)) s = (.ok s, s) := rfl

theorem set_apply (t s : Session σ) : (set t : Conversion σ PUnit) s = (.ok ⟨⟩, t) := rfl

/-- What the emitter keeps once it has been handed an emission. -/
def deliver (emitter : Option (Emitter σ)) (kept : σ) (emission : String × Node) : σ :=
  match emitter with
  | none => kept
  | some emitter => (emitter emission.1 emission.2 kept).2

/-- **An emission always succeeds**, whatever the emitter answers. -/
theorem emit_apply (run : Run σ) (path : String) (tree : Node) (s : Session σ) :
    ∃ log, emit run path tree s =
      (.ok (), { s with emitter := deliver run.emitter s.emitter (path, tree), log := log }) := by
  unfold emit deliver
  cases run.emitter with
  | none => exact ⟨s.log, rfl⟩
  | some emitter =>
    simp only [bind_apply, get_apply]
    rcases emitter path tree s.emitter with ⟨emitted, kept⟩
    simp only [bind_apply, set_apply]
    cases emitted.refusal with
    | none => exact ⟨_, rfl⟩
    | some reason => exact ⟨_, record_apply ..⟩

/-! ## Accounts

An account is data: what a conversion answers, notes and emits, with no state to run it in.
`Performs` ties a conversion to its account, and sequences of the one to sequences of the other. -/

/-- The state of a file once a mention in it has been noted. -/
def FileState.note (o : ConversionOptions) (place : Place) (file : FileState) :
    Mention → FileState
  | .metadata fields => { file with metadata := file.metadata.merge fields }
  | .figure target =>
    file.importing (Path.imageIdentifier target) (Path.imageImport (importerOf o place) target)
  | .inclusion fragment =>
    file.importing (Path.fragmentComponent fragment.place.path o.fragmentExtension)
      (Path.fragmentImport (importerOf o place) fragment.place.path)

/-- What a conversion does: its answer, what it mentions in the file, and what it emits. -/
structure Account (α : Type) where
  answer : Except Fault α
  mentions : List Mention := []
  emissions : List (String × Node) := []

/-- A conversion does what its account says, from every state. -/
def Performs (run : Run σ) (place : Place) (x : Conversion σ α) (a : Account α) : Prop :=
  ∀ s : Session σ, (x s).1 = a.answer ∧
    (x s).2.file = a.mentions.foldl (FileState.note run.options place) s.file ∧
    (x s).2.emitter = a.emissions.foldl (deliver run.emitter) s.emitter

/-- One account after another; a fault ends it. -/
def Account.bind (a : Account α) (f : α → Account β) : Account β :=
  match a.answer with
  | .ok v =>
    ⟨(f v).answer, a.mentions ++ (f v).mentions, a.emissions ++ (f v).emissions⟩
  | .error e => ⟨.error e, a.mentions, a.emissions⟩

namespace Performs

variable {run : Run σ} {place : Place}

/-- A value by itself mentions and emits nothing. -/
theorem pure (v : α) : Performs run place (Pure.pure v) ⟨.ok v, [], []⟩ :=
  fun _ => ⟨rfl, rfl, rfl⟩

/-- An operation that may fault mentions and emits nothing. -/
theorem lift (e : Except Fault α) : Performs run place (liftM e) ⟨e, [], []⟩ :=
  fun _ => ⟨rfl, rfl, rfl⟩

/-- A record leaves no trace in an account. -/
theorem record (level : Level) (message : String) :
    Performs run place (record level message) ⟨.ok (), [], []⟩ :=
  fun _ => ⟨rfl, rfl, rfl⟩

/-- Metadata of the file is a mention of it. -/
theorem addMetadata (fields : Entries Value) :
    Performs run place (addMetadata fields) ⟨.ok (), [.metadata fields], []⟩ :=
  fun _ => ⟨rfl, rfl, rfl⟩

/-- Registering the import of a mention is noting the mention. -/
theorem registerImport {name path : String} {m : Mention}
    (hm : ∀ file, FileState.note run.options place file m = file.importing name path) :
    Performs run place (registerImport name path) ⟨.ok (), [m], []⟩ := by
  intro s
  rw [registerImport_apply]
  exact ⟨rfl, (hm s.file).symm, rfl⟩

/-- An emission is part of the account, and its answer is not. -/
theorem emit (path : String) (tree : Node) :
    Performs run place (emit run path tree) ⟨.ok (), [], [(path, tree)]⟩ := by
  intro s
  obtain ⟨log, h⟩ := emit_apply run path tree s
  rw [h]
  exact ⟨rfl, rfl, rfl⟩

/-- An account of a sequence: the account of its first step, then that of the rest. -/
theorem bind {x : Conversion σ α} {f : α → Conversion σ β} {a : Account α} {b : α → Account β}
    (hx : Performs run place x a) (hf : ∀ v, a.answer = .ok v → Performs run place (f v) (b v)) :
    Performs run place (x >>= f) (a.bind b) := by
  intro s
  have hs := hx s
  rw [bind_apply, Account.bind]
  generalize x s = p at hs ⊢
  obtain ⟨r, s'⟩ := p
  obtain ⟨rfl, hfile, hemitter⟩ : r = a.answer ∧ s'.file = _ ∧ s'.emitter = _ := hs
  cases h : a.answer with
  | error e => exact ⟨rfl, hfile, hemitter⟩
  | ok v =>
    obtain ⟨ganswer, gfile, gemitter⟩ := hf v h s'
    refine ⟨ganswer, ?_, ?_⟩
    · rw [gfile, List.foldl_append, hfile]
    · rw [gemitter, List.foldl_append, hemitter]

/-- **A fragment shows in the enclosing file only through what it emits**: its own mentions go into
its own tree. -/
theorem fragmentTree {fragment : String} {content : Place → Conversion σ (List Node)}
    {a : Account (List Node)}
    (h : Performs run (place.enter fragment) (content (place.enter fragment)) a) :
    Performs run place (fragmentTree place fragment content)
      ⟨a.answer.map (assemble []
        (a.mentions.foldl (FileState.note run.options (place.enter fragment)) {})), [],
        a.emissions⟩ := by
  intro s
  have hs := h { s with file := {} }
  unfold Convert.fragmentTree inNewFile
  simp only [bind_apply, get_apply, pure_apply]
  generalize content (place.enter fragment) { s with file := {} } = p at hs ⊢
  obtain ⟨r, s'⟩ := p
  obtain ⟨rfl, hfile, hemitter⟩ : r = a.answer ∧ s'.file = _ ∧ s'.emitter = _ := hs
  cases h : a.answer with
  | error e => exact ⟨rfl, rfl, hemitter⟩
  | ok ns =>
    refine ⟨?_, rfl, hemitter⟩
    change Except.ok (assemble [] s'.file ns) = _
    rw [hfile]
    rfl

/-- What is done with an answer, without effects, changes the answer only. -/
theorem map {x : Conversion σ α} {a : Account α} (hx : Performs run place x a) (g : α → β) :
    Performs run place (x >>= fun v => Pure.pure (g v))
      (a.bind fun v => ⟨.ok (g v), [], []⟩) :=
  hx.bind fun v _ => .pure (g v)

end Performs

end MdxPages.Convert
