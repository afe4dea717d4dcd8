import MdxPages.Proofs.Convert.Production

/-!
# Proofs/Convert/Emission — an emitter has no say in a conversion

An emitter may keep what it likes, refuse what it likes, or not be there at all: the page, the
imports and the metadata are the same, or the same fault ends it, and every emitter is handed the
same fragments in the same order (`emission_independent`).
-/

namespace MdxPages.Convert

variable {σ τ : Type}

/-- An emitter that is watched: it answers as before, and all that it is handed is noted in
order. -/
def Emitter.watched (emitter : Emitter σ) : Emitter (List (String × Node) × σ) :=
  fun path tree kept =>
    let (emitted, own) := emitter path tree kept.2
    (emitted, (kept.1 ++ [(path, tree)], own))

/-- Watching takes note of every emission and does not change what the emitter keeps. -/
theorem foldl_deliver_watched (emitter : Emitter σ) (kept : List (String × Node) × σ)
    (emissions : List (String × Node)) :
    emissions.foldl (deliver (some emitter.watched)) kept =
      (kept.1 ++ emissions, emissions.foldl (deliver (some emitter)) kept.2) := by
  induction emissions generalizing kept with
  | nil => rw [List.foldl_nil, List.append_nil, List.foldl_nil]
  | cons emission emissions ih =>
    rw [List.foldl_cons, ih, List.foldl_cons, List.append_cons]
    rfl

/-- All that an emitter is handed during the conversion of a page: the paths and trees of
fragments, in order. -/
def handedOver (o : ConversionOptions) (path : String) (root : Entries Value)
    (emitter : Emitter σ) (kept : σ) : List (String × Node) :=
  (convertPage ⟨o, some emitter.watched⟩ path root ([], kept)).2.emitter.1

/-- **Emitting does not influence the conversion.**  With any emitters, or none, a page comes out
the same, or stops at the same fault, and has registered the same.  Any two emitters are handed the
same fragments in the same order, and what an emitter keeps in the end comes from these alone. -/
theorem emission_independent (o : ConversionOptions) (path : String) (root : Entries Value) :
    (∀ {σ τ : Type} (emitter : Option (Emitter σ)) (emitter' : Option (Emitter τ)) (kept : σ)
      (kept' : τ),
      (convertPage ⟨o, emitter⟩ path root kept).1 = (convertPage ⟨o, emitter'⟩ path root kept').1 ∧
      (convertPage ⟨o, emitter⟩ path root kept).2.file =
        (convertPage ⟨o, emitter'⟩ path root kept').2.file) ∧
    ∀ {σ τ : Type} (emitter : Emitter σ) (emitter' : Emitter τ) (kept : σ) (kept' : τ),
      handedOver o path root emitter kept = handedOver o path root emitter' kept' ∧
      (convertPage ⟨o, some emitter⟩ path root kept).2.emitter =
        (handedOver o path root emitter kept).foldl (deliver (some emitter)) kept := by
  obtain ⟨a, ha⟩ := exists_page_account o path root
  have hhanded {σ : Type} (emitter : Emitter σ) (kept : σ) :
      handedOver o path root emitter kept = a.emissions := by
    rw [handedOver, (ha ⟨o, some emitter.watched⟩ ([], kept) rfl).2.2, foldl_deliver_watched,
      List.nil_append]
  constructor
  · intro σ τ emitter emitter' kept kept'
    obtain ⟨hanswer, hfile, -⟩ := ha ⟨o, emitter⟩ kept rfl
    obtain ⟨hanswer', hfile', -⟩ := ha ⟨o, emitter'⟩ kept' rfl
    exact ⟨hanswer.trans hanswer'.symm, hfile.trans hfile'.symm⟩
  · intro σ τ emitter emitter' kept kept'
    refine ⟨(hhanded emitter kept).trans (hhanded emitter' kept').symm, ?_⟩
    rw [(ha ⟨o, some emitter⟩ kept rfl).2.2, hhanded]

end MdxPages.Convert
