import MdxPages.Cli.Arguments
import MdxPages.Proofs.Entries
import MdxPages.Proofs.Results

/-!
# Proofs/Cli/Given — what the flags of a command line give

The value that a flag gives is said by the flag and by what comes after it, without the steps of
reading (`givenBy`): its own text, the text that follows, all texts that follow, or a truth value.
Reading the arguments keeps these values over those that were there before, the last use of a name
counting, and besides them nothing but the input (`takes_takeAll`).
-/

namespace MdxPages.Cli

/-! ## What arguments give

What a flag gives is read off the arguments directly, with no state in between. -/

/-- The value that a text gives to a flag; `--` gives no text. -/
def Flag.textValue? (f : Flag) (s : String) : Option Value :=
  match f.action with
  | .store type _ => if s = "--" then some (.arr []) else type.read? s
  | .storeMany => some (.arr (if s = "--" then [] else [.str s]))
  | _ => none

/-- The texts that arguments start with. -/
def leadingTexts : List Argument → List String
  | .plain s :: rest => s :: leadingTexts rest
  | _ => []

/-- The value that a use of a flag gives, if these arguments come after it. -/
def Use.value? (use : Use) (rest : List Argument) : Option Value :=
  match use.value, use.flag.action with
  | some s, _ => use.flag.textValue? s
  | none, .store .. => (leadingTexts rest).head?.bind use.flag.textValue?
  | none, .storeMany => some (.arr ((leadingTexts rest).map .str))
  | none, .turnOn => some (.bool true)
  | none, .turnOff => some (.bool false)
  | none, .help => none
  | none, .version => none

/-- The uses of flags in an argument. -/
def Argument.uses : Argument → List Use
  | .flag f _ none => [⟨f, none⟩]
  | .flag f spelling (some s) =>
    (groupUses f (!Text.startsWith spelling "--") s.toList).toOption.getD []
  | _ => []

/-- The name and value that a use of a flag gives, if these arguments come after it. -/
def Use.give (use : Use) (rest : List Argument) : List (String × Value) :=
  ((use.value? rest).map fun v => (use.flag.name, v)).toList

/-- The names and values that the flags of arguments give, in order. -/
def givenBy : List Argument → List (String × Value)
  | [] => []
  | a :: rest => a.uses.flatMap (·.give rest) ++ givenBy rest

/-- What is still to be given to a flag by the arguments to come. -/
def Awaiting.give : Awaiting → List Argument → List (String × Value)
  | .nothing, _ => []
  | .one f, rest => (((leadingTexts rest).head?.bind f.textValue?).map fun v => (f.name, v)).toList
  | .many f values, rest => [(f.name, .arr ((values ++ leadingTexts rest).map .str))]

/-! ## What reading keeps

Reading goes through the arguments with the values so far and the flag that still waits for a text.
`Takes` compares the values before and after, and `trans` puts the steps together. -/

/-- Values after others with some values kept over them; the input may have been settled besides. -/
structure Takes (values : Entries Value) (given : List (String × Value))
    (values' : Entries Value) : Prop where
  get? : ∀ name, name ≠ "input" → values'.get? name = (values.merge given).get? name
  nodup : values.keys.Nodup → values'.keys.Nodup

namespace Takes

variable {values values' values'' : Entries Value} {given given' : List (String × Value)}

/-- Nothing has been kept yet. -/
theorem refl (values : Entries Value) : Takes values [] values :=
  ⟨fun _ _ => rfl, id⟩

/-- What is kept later stands over what was kept before. -/
theorem trans (h : Takes values given values') (h' : Takes values' given' values'') :
    Takes values (given ++ given') values'' := by
  refine ⟨fun name hname => ?_, fun hvalues => h'.nodup (h.nodup hvalues)⟩
  rw [h'.get? name hname, Entries.merge_append, Entries.get?_merge, h.get? name hname,
    ← Entries.get?_merge]

/-- Putting a value under a name keeps it. -/
theorem put (values : Entries Value) (name : String) (v : Value) :
    Takes values [(name, v)] (values.put name v) :=
  ⟨fun _ _ => rfl, Entries.nodup_keys_put⟩

/-- The input is under a name of its own, so settling it keeps nothing. -/
theorem input (values : Entries Value) (v : Value) : Takes values [] (values.put "input" v) :=
  ⟨fun _ hname => Entries.get?_put_of_ne v hname values, Entries.nodup_keys_put⟩

end Takes

variable {p p' : Progress} {f : Flag} {args : List Argument} {s : String}

/-- The value that a text gives to a flag is kept. -/
theorem keepText_eq_ok (h : p.keepText f s = .ok p') :
    ∃ v, f.textValue? s = some v ∧ p' = p.keep f v := by
  rw [Progress.keepText] at h
  rw [Flag.textValue?]
  cases haction : f.action with
  | store type choices =>
    simp only [haction] at h
    dsimp only
    split at h
    · next hs => exact ⟨_, if_pos hs, (Except.ok.inj h).symm⟩
    · next hs =>
      rw [if_neg hs]
      cases hread : type.read? s with
      | none =>
        rw [hread] at h
        cases h
      | some v =>
        rw [hread] at h
        dsimp only at h
        split at h
        · exact ⟨v, rfl, (Except.ok.inj h).symm⟩
        · cases h
  | storeMany =>
    simp only [haction] at h
    exact ⟨_, rfl, (Except.ok.inj h).symm⟩
  | _ =>
    simp only [haction] at h
    cases h

/-- Settling keeps what is still to be given, if no text follows. -/
theorem takes_settle (args : List Argument) (hargs : leadingTexts args = [])
    (h : p.settle = .ok p') :
    Takes p.values (p.awaiting.give args) p'.values ∧ p'.awaiting = .nothing := by
  rw [Progress.settle] at h
  cases hawaiting : p.awaiting with
  | nothing =>
    rw [hawaiting] at h
    obtain rfl := Except.ok.inj h
    exact ⟨.refl _, hawaiting⟩
  | one f =>
    rw [hawaiting] at h
    cases h
  | many f values =>
    rw [hawaiting] at h
    obtain rfl := Except.ok.inj h
    rw [Awaiting.give, hargs, List.append_nil]
    exact ⟨.put _ _ _, rfl⟩

/-! ## Uses of flags

Several short flags may share an argument.  Only the last of them can wait for a text, so all others
are closed. -/

/-- A use that does not depend on the arguments after it. -/
def Use.IsClosed (use : Use) : Prop :=
  use.value.isSome ∨ use.flag.takesValue = false

/-- Of the uses in an argument none but the last depends on the arguments after it. -/
theorem isClosed_of_groupUses {short : Bool} {cs : List Char} {uses : List Use}
    (h : groupUses f short cs = .ok uses) : ∀ use ∈ uses.dropLast, use.IsClosed := by
  induction cs generalizing f short uses with
  | nil =>
    rw [groupUses] at h
    split at h
    · obtain rfl := Except.ok.inj h
      simp
    · cases h
  | cons c cs ih =>
    have hfirst (hvalue : ¬f.takesValue = true) : Use.IsClosed ⟨f, none⟩ :=
      .inr (Bool.eq_false_iff.2 hvalue)
    unfold groupUses at h
    split at h
    · obtain rfl := Except.ok.inj h
      simp
    next hvalue =>
    split at h
    · cases h
    split at h
    · cases h
    · obtain rfl := Except.ok.inj h
      simpa using hfirst hvalue
    · next rest _ _ g _ _ =>
      cases hgroup : groupUses g true rest with
      | error stop =>
        rw [hgroup] at h
        cases h
      | ok later =>
        rw [hgroup] at h
        obtain rfl := Except.ok.inj h
        cases later with
        | nil => simp
        | cons second later =>
          rw [List.dropLast_cons_cons, List.forall_mem_cons]
          exact ⟨hfirst hvalue, ih hgroup⟩

/-- A use keeps what it gives, or waits for the arguments that come after it. -/
theorem takes_takeUse {use : Use} (args : List Argument) (h : p.takeUse use = .ok p') :
    ∃ given, Takes p.values given p'.values ∧ given ++ p'.awaiting.give args = use.give args ∧
      (use.IsClosed → p'.awaiting = .nothing) := by
  obtain ⟨f, value⟩ := use
  cases value with
  | some s =>
    obtain ⟨v, hv, rfl⟩ := keepText_eq_ok h
    refine ⟨[(f.name, v)], .put _ _ _, ?_, fun _ => rfl⟩
    have hvalue : Use.value? ⟨f, some s⟩ args = some v := hv
    rw [Use.give, hvalue]
    rfl
  | none =>
    rw [Progress.takeUse] at h
    rw [Use.give, Use.value?]
    have hopen (hvalue : f.takesValue = true) : ¬ Use.IsClosed ⟨f, none⟩ := by
      rintro (hsome | hnone)
      · cases hsome
      · exact absurd hvalue (Bool.eq_false_iff.1 hnone)
    cases haction : f.action with
    | store type choices =>
      simp only [haction] at h ⊢
      obtain rfl := Except.ok.inj h
      refine ⟨[], .refl _, rfl, fun hclosed => absurd hclosed (hopen ?_)⟩
      rw [Flag.takesValue, haction]
    | storeMany =>
      simp only [haction] at h ⊢
      obtain rfl := Except.ok.inj h
      refine ⟨[], .refl _, rfl, fun hclosed => absurd hclosed (hopen ?_)⟩
      rw [Flag.takesValue, haction]
    | turnOn | turnOff =>
      simp only [haction] at h ⊢
      obtain rfl := Except.ok.inj h
      exact ⟨_, .put _ _ _, rfl, fun _ => rfl⟩
    | help | version =>
      simp only [haction] at h
      cases h

/-- The uses in one argument keep what they give, one after the other. -/
theorem takes_foldlM {uses : List Use} (args : List Argument)
    (hclosed : ∀ use ∈ uses.dropLast, use.IsClosed) (hp : p.awaiting = .nothing)
    (h : uses.foldlM Progress.takeUse p = .ok p') :
    ∃ given, Takes p.values given p'.values ∧
      given ++ p'.awaiting.give args = uses.flatMap (·.give args) := by
  induction uses generalizing p with
  | nil =>
    obtain rfl := Except.ok.inj h
    exact ⟨[], .refl _, by rw [hp]; rfl⟩
  | cons use uses ih =>
    rw [List.foldlM_cons] at h
    obtain ⟨p₁, htake, h⟩ := exists_of_bind h
    obtain ⟨given, htakes, hgiven, hnothing⟩ := takes_takeUse args htake
    cases uses with
    | nil =>
      obtain rfl := Except.ok.inj h
      exact ⟨given, htakes, by simpa using hgiven⟩
    | cons next uses =>
      have hp₁ := hnothing (hclosed use List.mem_cons_self)
      obtain ⟨given', htakes', hgiven'⟩ :=
        ih (fun use huse => hclosed use (List.mem_cons_of_mem _ huse)) hp₁ h
      rw [hp₁, Awaiting.give, List.append_nil] at hgiven
      refine ⟨given ++ given', htakes.trans htakes', ?_⟩
      rw [List.append_assoc, hgiven', hgiven]
      rfl

/-- A flag first settles what the flag before it waits for. -/
theorem takes_takeFlag {spelling : String} {attached : Option String} {followed : Bool}
    (args : List Argument) (h : p.takeFlag f spelling attached followed = .ok p') :
    ∃ given, Takes p.values given p'.values ∧ given ++ p'.awaiting.give args =
      p.awaiting.give (.flag f spelling attached :: args) ++
        (Argument.uses (.flag f spelling attached)).flatMap (·.give args) := by
  rw [Progress.takeFlag] at h
  obtain ⟨p₁, hsettle, h⟩ := exists_of_bind h
  obtain ⟨hpending, hnothing⟩ := takes_settle (.flag f spelling attached :: args) rfl hsettle
  obtain ⟨hclosed, hfold⟩ :
      (∀ use ∈ (Argument.uses (.flag f spelling attached)).dropLast, use.IsClosed) ∧
        (Argument.uses (.flag f spelling attached)).foldlM Progress.takeUse
          { p₁ with settledHere := false } = .ok p' := by
    cases attached with
    | none =>
      dsimp only at h
      obtain ⟨uses, huses, h⟩ := exists_of_bind h
      obtain rfl := Except.ok.inj huses
      split at h
      · cases h
      · exact ⟨by simp [Argument.uses], h⟩
    | some s =>
      dsimp only at h
      obtain ⟨uses, huses, h⟩ := exists_of_bind h
      rw [Argument.uses, huses]
      split at h
      · cases h
      · exact ⟨isClosed_of_groupUses huses, h⟩
  have hsettled : ({ p₁ with settledHere := false } : Progress).awaiting = .nothing := hnothing
  obtain ⟨given, htakes, hgiven⟩ := takes_foldlM args hclosed hsettled hfold
  exact ⟨_, hpending.trans htakes, by rw [List.append_assoc, hgiven]⟩

/-- **One argument keeps what it gives**, and leaves the rest to the arguments to come. -/
theorem takes_take {a : Argument} {followed : Bool} (args : List Argument)
    (h : p.take followed a = .ok p') :
    ∃ given, Takes p.values given p'.values ∧ given ++ p'.awaiting.give args =
      p.awaiting.give (a :: args) ++ a.uses.flatMap (·.give args) := by
  cases a with
  | flag f spelling attached => exact takes_takeFlag args h
  | plain s =>
    rw [Progress.take] at h
    cases hawaiting : p.awaiting with
    | nothing =>
      simp only [hawaiting] at h
      split at h
      · obtain rfl := Except.ok.inj h
        exact ⟨[], .refl _, rfl⟩
      · obtain rfl := Except.ok.inj h
        exact ⟨[], .input _ _, rfl⟩
    | one f =>
      simp only [hawaiting] at h
      obtain ⟨v, hv, rfl⟩ := keepText_eq_ok h
      refine ⟨[(f.name, v)], .put _ _ _, ?_⟩
      simp [Awaiting.give, leadingTexts, hv, Progress.keep, Argument.uses]
    | many f values =>
      simp only [hawaiting] at h
      obtain rfl := Except.ok.inj h
      refine ⟨[], .refl _, ?_⟩
      simp [Awaiting.give, leadingTexts, Argument.uses]
  | separator =>
    rw [Progress.take] at h
    obtain ⟨p₁, hsettle, h⟩ := exists_of_bind h
    obtain ⟨htakes, hnothing⟩ := takes_settle (.separator :: args) rfl hsettle
    split at h <;>
    · obtain rfl := Except.ok.inj h
      exact ⟨_, htakes, by rw [hnothing]; rfl⟩
  | unknown =>
    rw [Progress.take] at h
    obtain ⟨p₁, hsettle, h⟩ := exists_of_bind h
    obtain ⟨htakes, hnothing⟩ := takes_settle (.unknown :: args) rfl hsettle
    obtain rfl := Except.ok.inj h
    exact ⟨_, htakes, by rw [hnothing]; rfl⟩

/-- **Reading keeps what the flags give**, the last use of a name counting, and the input. -/
theorem takes_takeAll (h : p.takeAll args = .ok p') :
    Takes p.values (p.awaiting.give args ++ givenBy args) p'.values := by
  induction args generalizing p with
  | nil =>
    rw [givenBy, List.append_nil]
    exact (takes_settle [] rfl h).1
  | cons a args ih =>
    rw [Progress.takeAll] at h
    obtain ⟨p₁, htake, h⟩ := exists_of_bind h
    obtain ⟨given, htakes, hgiven⟩ := takes_take args htake
    have hall := htakes.trans (ih h)
    rwa [← List.append_assoc, hgiven, List.append_assoc] at hall

/-! ## The flags of arguments -/

/-- A spelling belongs to one of the flags. -/
theorem mem_flags_of_flagOf? {spelling : String} (h : flagOf? spelling = some f) : f ∈ flags :=
  List.mem_of_find?_eq_some h

theorem mem_flags_of_mem_allSpellings {entry : String × Flag} (h : entry ∈ allSpellings) :
    entry.2 ∈ flags := by
  obtain ⟨f, hf, hentry⟩ := List.mem_flatMap.1 h
  obtain ⟨spelling, -, rfl⟩ := List.mem_map.1 hentry
  exact hf

theorem mem_flags_of_mem_candidates {spelling : String} {attached : Option String}
    (h : .flag f spelling attached ∈ candidates s) : f ∈ flags := by
  unfold candidates at h
  split at h
  · obtain ⟨entry, hentry, heq⟩ := List.mem_map.1 h
    cases heq
    exact mem_flags_of_mem_allSpellings (List.mem_filter.1 hentry).1
  · obtain ⟨entry, hentry, heq⟩ := List.mem_filterMap.1 h
    dsimp only at heq
    split at heq
    · cases heq
      exact mem_flags_of_mem_allSpellings hentry
    · split at heq
      · cases heq
        exact mem_flags_of_mem_allSpellings hentry
      · cases heq
  · cases h

/-- An argument is taken for a flag only if it is one of the flags. -/
theorem mem_flags_of_classify {spelling : String} {attached : Option String}
    (h : classify s = .ok (.flag f spelling attached)) : f ∈ flags := by
  unfold classify at h
  split at h
  · cases h
  split at h
  · next hflag =>
    cases h
    exact mem_flags_of_flagOf? hflag
  dsimp only at h
  split at h
  · next hflag =>
    cases h
    exact mem_flags_of_flagOf? hflag
  split at h
  · next hcandidates =>
    cases h
    exact mem_flags_of_mem_candidates (hcandidates ▸ List.mem_singleton_self _)
  · cases h
  · split at h <;> cases h

theorem mem_flags_of_classifyAll {strings : List String} {spelling : String}
    {attached : Option String} (h : classifyAll strings = .ok args)
    (hmem : .flag f spelling attached ∈ args) : f ∈ flags := by
  induction strings generalizing args with
  | nil =>
    obtain rfl := Except.ok.inj h
    cases hmem
  | cons s strings ih =>
    rw [classifyAll] at h
    split at h
    · obtain rfl := Except.ok.inj h
      obtain hmem | hmem := List.mem_cons.1 hmem
      · cases hmem
      · obtain ⟨s, -, hs⟩ := List.mem_map.1 hmem
        cases hs
    · obtain ⟨first, hfirst, h⟩ := exists_of_bind h
      obtain ⟨rest, hrest, h⟩ := exists_of_bind h
      obtain rfl := Except.ok.inj h
      obtain rfl | hmem := List.mem_cons.1 hmem
      · exact mem_flags_of_classify hfirst
      · exact ih hrest hmem

theorem mem_flags_of_groupUses {short : Bool} {cs : List Char} {uses : List Use} (hf : f ∈ flags)
    (h : groupUses f short cs = .ok uses) : ∀ use ∈ uses, use.flag ∈ flags := by
  induction cs generalizing f short uses with
  | nil =>
    rw [groupUses] at h
    split at h
    · obtain rfl := Except.ok.inj h
      simpa using hf
    · cases h
  | cons c cs ih =>
    unfold groupUses at h
    split at h
    · obtain rfl := Except.ok.inj h
      simpa using hf
    split at h
    · cases h
    split at h
    · cases h
    · next hg =>
      obtain rfl := Except.ok.inj h
      simpa using ⟨hf, mem_flags_of_flagOf? hg⟩
    · next hg _ =>
      obtain ⟨later, hlater, h⟩ := exists_of_bind h
      obtain rfl := Except.ok.inj h
      exact List.forall_mem_cons.2 ⟨hf, ih (mem_flags_of_flagOf? hg) hlater⟩

/-- Every use in an argument is a use of one of the flags. -/
theorem mem_flags_of_mem_uses {a : Argument} (ha : ∀ f spelling attached,
    a = .flag f spelling attached → f ∈ flags) : ∀ use ∈ a.uses, use.flag ∈ flags := by
  intro use huse
  cases a with
  | flag f spelling attached =>
    have hf := ha f spelling attached rfl
    cases attached with
    | none =>
      obtain rfl := List.mem_singleton.1 huse
      exact hf
    | some s =>
      rw [Argument.uses] at huse
      cases hgroup : groupUses f (!Text.startsWith spelling "--") s.toList with
      | error stop =>
        rw [hgroup] at huse
        cases huse
      | ok uses =>
        rw [hgroup] at huse
        exact mem_flags_of_groupUses hf hgroup use huse
  | _ => cases huse

/-- What arguments give is given by a use of one of the flags. -/
theorem exists_use_of_mem_givenBy {strings : List String} {entry : String × Value}
    (h : classifyAll strings = .ok args) (hmem : entry ∈ givenBy args) :
    ∃ (use : Use) (rest : List Argument), use.flag ∈ flags ∧ use.flag.name = entry.1 ∧
      use.value? rest = some entry.2 := by
  have hflags : ∀ a ∈ args, ∀ f spelling attached, a = .flag f spelling attached → f ∈ flags :=
    fun a ha f spelling attached heq => mem_flags_of_classifyAll h (heq ▸ ha)
  clear h
  induction args with
  | nil => cases hmem
  | cons a args ih =>
    obtain hmem | hmem := List.mem_append.1 hmem
    · obtain ⟨use, huse, hentry⟩ := List.mem_flatMap.1 hmem
      obtain ⟨v, hv, rfl⟩ : ∃ v, use.value? args = some v ∧ (use.flag.name, v) = entry := by
        simpa [Use.give] using hentry
      exact ⟨use, args, mem_flags_of_mem_uses (hflags a List.mem_cons_self) use huse, rfl, hv⟩
    · exact ih hmem fun a ha => hflags a (List.mem_cons_of_mem _ ha)

end MdxPages.Cli
