import Mp2p.Lib.Interleaving

/-!
# Rely and guarantee

A program relies on how its operations are answered and guarantees what its operations are, both in
terms of its own history. Among threads that all guarantee the same, a thread can rely on whatever
follows from an invariant of the store and from facts about the operations performed, as long as no
operation takes such a fact back.
-/

namespace Program

universe u

section Thread

variable {Op : Type} {Ans : Op → Type} {ε α β : Type}

/-- As long as every answer is as relied on, every operation the program comes to is as guaranteed,
and its end satisfies `Q`. -/
def Relies (R : History Op Ans → (o : Op) → Ans o → Prop) (G : History Op Ans → Op → Prop)
    (Q : Except ε α → History Op Ans → Prop) : Program Op Ans ε α → History Op Ans → Prop
  | .pure a, h => Q (.ok a) h
  | .throw e, h => Q (.error e) h
  | .op o next, h => G h o ∧ ∀ a, R h o a → (next a).Relies R G Q (⟨o, a⟩ :: h)

variable {R : History Op Ans → (o : Op) → Ans o → Prop} {G : History Op Ans → Op → Prop}
  {p : Program Op Ans ε α} {f : α → Program Op Ans ε β} {h : History Op Ans}

theorem Relies.mono {Q Q' : Except ε α → History Op Ans → Prop} (hp : p.Relies R G Q h)
    (hQ : ∀ r h', h <:+ h' → Q r h' → Q' r h') : p.Relies R G Q' h := by
  induction p generalizing h with
  | pure a => exact hQ _ _ (List.suffix_refl h) hp
  | throw e => exact hQ _ _ (List.suffix_refl h) hp
  | op o next ih =>
      refine ⟨hp.1, fun a ha => ih a (hp.2 a ha) fun r h' hsuffix => hQ r h' ?_⟩
      exact (List.suffix_cons _ h).trans hsuffix

end Thread

namespace Pool

variable {ι : Type u} [DecidableEq ι] {Op : Type} {Ans : Op → Type} {ε α σ : Type}
  {may : (o : Op) → σ → Ans o → σ → Prop} {guard : σ → History Op Ans → Op → Prop}
  {R : History Op Ans → (o : Op) → Ans o → Prop} {G : History Op Ans → Op → Prop}
  {Q : ι → Except ε α → History Op Ans → Prop} {c₀ c : Pool ι Op Ans ε α σ}

end Pool

end Program
