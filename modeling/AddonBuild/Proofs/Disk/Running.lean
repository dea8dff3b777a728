import AddonBuild.Disk.Session
import Mathlib.Tactic.Lemma

/-!
# Running on a state

What a sequence of changes comes to is what its steps come to, each on what the ones before left.
These lemmas open a sequence once, so that proofs about it name the states between its steps. Work
on the disk of a session is work on a disk, with the stamp left as it is.
-/

namespace AddonBuild

namespace WorkM

variable {σ ε α β : Type}

/-- What a computation reports on a state, and what it leaves of it. -/
def on (work : WorkM σ ε α) (s : σ) : Except ε α × σ :=
  work.run.run s

/-- Computations are the same that come to the same on every state. -/
lemma ext_on {work work' : WorkM σ ε α} (h : ∀ s, work.on s = work'.on s) : work = work' :=
  funext h

@[simp] lemma on_pure (a : α) (s : σ) : (pure a : WorkM σ ε α).on s = (.ok a, s) := rfl

@[simp] lemma on_throw (e : ε) (s : σ) : (throw e : WorkM σ ε α).on s = (.error e, s) := rfl

@[simp] lemma on_get (s : σ) : (get : WorkM σ ε σ).on s = (.ok s, s) := rfl

@[simp] lemma on_ask (question : σ → α) (s : σ) :
    (ask question : WorkM σ ε α).on s = (.ok (question s), s) := rfl

@[simp] lemma on_ofExcept (result : Except ε α) (s : σ) :
    (MonadExcept.ofExcept result : WorkM σ ε α).on s = (result, s) := by
  cases result <;> rfl

@[simp] lemma on_attempt {ε' : Type} (work : WorkM σ ε α) (s : σ) :
    (attempt work : WorkM σ ε' _).on s = (.ok (work.on s).1, (work.on s).2) := rfl

@[simp] lemma on_mapError {ε' : Type} (f : ε → ε') (work : WorkM σ ε α) (s : σ) :
    (work.mapError f).on s = ((work.on s).1.mapError f, (work.on s).2) := rfl

lemma on_bind (work : WorkM σ ε α) (f : α → WorkM σ ε β) (s : σ) :
    (work >>= f).on s =
      match work.on s with
      | (.ok a, s') => (f a).on s'
      | (.error e, s') => (.error e, s') := by
  unfold on ExceptT.run StateT.run
  simp only [bind, ExceptT.bind, ExceptT.mk, StateT.bind, ExceptT.bindCont]
  cases work s with
  | mk result s' => cases result <;> rfl

lemma on_bind_of_ok {work : WorkM σ ε α} {f : α → WorkM σ ε β} {s s' : σ} {a : α}
    (h : work.on s = (.ok a, s')) : (work >>= f).on s = (f a).on s' := by
  rw [on_bind, h]

lemma on_bind_of_error {work : WorkM σ ε α} {f : α → WorkM σ ε β} {s s' : σ} {e : ε}
    (h : work.on s = (.error e, s')) : (work >>= f).on s = (.error e, s') := by
  rw [on_bind, h]

@[simp] lemma on_consult (question : σ → Except ε α) (s : σ) :
    (consult question).on s = (question s, s) := by
  rw [consult, on_bind, on_get]
  dsimp only
  cases question s <;> rfl

/-- A sequence succeeds if each of its steps does, on what the ones before left. -/
lemma on_bind_eq_ok {work : WorkM σ ε α} {f : α → WorkM σ ε β} {s s' : σ} {b : β} :
    (work >>= f).on s = (.ok b, s') ↔
      ∃ a s₁, work.on s = (.ok a, s₁) ∧ (f a).on s₁ = (.ok b, s') := by
  rw [on_bind]
  obtain ⟨result, s₁⟩ := work.on s
  cases result <;> simp [and_assoc]

lemma on_consult_bind_eq_ok {question : σ → Except ε α} {f : α → WorkM σ ε β} {s s' : σ}
    {b : β} :
    (consult question >>= f).on s = (.ok b, s') ↔
      ∃ a, question s = .ok a ∧ (f a).on s = (.ok b, s') := by
  rw [on_bind, on_consult]
  cases question s <;> simp

lemma on_ofExcept_bind_eq_ok {result : Except ε α} {f : α → WorkM σ ε β} {s s' : σ} {b : β} :
    ((MonadExcept.ofExcept result : WorkM σ ε α) >>= f).on s = (.ok b, s') ↔
      ∃ a, result = .ok a ∧ (f a).on s = (.ok b, s') := by
  rw [on_bind, on_ofExcept]
  cases result <;> simp

lemma on_ask_bind (question : σ → α) (f : α → WorkM σ ε β) (s : σ) :
    (ask question >>= f).on s = (f (question s)).on s := by
  rw [on_bind, on_ask]

/-- Going through a list succeeds if its first member does and then the others. -/
lemma on_mapM_cons_eq_ok {γ : Type} {f : γ → WorkM σ ε β} {a : γ} {l : List γ} {bs : List β}
    {s s' : σ} :
    ((a :: l).mapM f).on s = (.ok bs, s') ↔ ∃ b rest s₁, (f a).on s = (.ok b, s₁) ∧
      (l.mapM f).on s₁ = (.ok rest, s') ∧ bs = b :: rest := by
  rw [List.mapM_cons]
  constructor
  · intro h
    obtain ⟨b, s₁, hfirst, h⟩ := on_bind_eq_ok.mp h
    obtain ⟨rest, s₂, hrest, h⟩ := on_bind_eq_ok.mp h
    obtain ⟨hbs, rfl⟩ := Prod.mk.inj h
    exact ⟨b, rest, s₁, hfirst, hrest, (Except.ok.inj hbs).symm⟩
  · rintro ⟨b, rest, s₁, hfirst, hrest, rfl⟩
    exact on_bind_eq_ok.mpr ⟨b, s₁, hfirst, on_bind_eq_ok.mpr ⟨rest, s', hrest, rfl⟩⟩

lemma on_mapM_append_eq_ok {γ : Type} {f : γ → WorkM σ ε β} {l l' : List γ} {bs : List β}
    {s s' : σ} :
    ((l ++ l').mapM f).on s = (.ok bs, s') ↔ ∃ first rest s₁, (l.mapM f).on s = (.ok first, s₁) ∧
      (l'.mapM f).on s₁ = (.ok rest, s') ∧ bs = first ++ rest := by
  rw [List.mapM_append]
  constructor
  · intro h
    obtain ⟨first, s₁, hfirst, h⟩ := on_bind_eq_ok.mp h
    obtain ⟨rest, s₂, hrest, h⟩ := on_bind_eq_ok.mp h
    obtain ⟨hbs, rfl⟩ := Prod.mk.inj h
    exact ⟨first, rest, s₁, hfirst, hrest, (Except.ok.inj hbs).symm⟩
  · rintro ⟨first, rest, s₁, hfirst, hrest, rfl⟩
    exact on_bind_eq_ok.mpr ⟨first, s₁, hfirst, on_bind_eq_ok.mpr ⟨rest, s', hrest, rfl⟩⟩

/-! ### What results are like -/

/-- Whatever a computation returns, on whichever state, is of one kind. -/
def Yields (work : WorkM σ ε α) (Q : α → Prop) : Prop :=
  ∀ s a s', work.on s = (.ok a, s') → Q a

namespace Yields

variable {work : WorkM σ ε α} {Q : α → Prop} {R : β → Prop}

lemma pure {a : α} (h : Q a) : Yields (pure a : WorkM σ ε α) Q := by
  intro s b s' hrun
  rw [on_pure] at hrun
  rwa [← Except.ok.inj (Prod.mk.inj hrun).1]

lemma bind {f : α → WorkM σ ε β} (hwork : Yields work Q) (hf : ∀ a, Q a → Yields (f a) R) :
    Yields (work >>= f) R := by
  intro s b s' hrun
  obtain ⟨a, s₁, hfirst, hrest⟩ := on_bind_eq_ok.mp hrun
  exact hf a (hwork s a s₁ hfirst) s₁ b s' hrest

lemma of_forall {f : α → WorkM σ ε β} (hf : ∀ a, Yields (f a) R) : Yields (work >>= f) R :=
  bind (Q := fun _ => True) (fun _ _ _ _ => trivial) fun a _ => hf a

lemma ofExcept {result : Except ε α} (h : ∀ a, result = .ok a → Q a) :
    Yields (MonadExcept.ofExcept result : WorkM σ ε α) Q := by
  intro s a s' hrun
  rw [on_ofExcept] at hrun
  exact h a (Prod.mk.inj hrun).1

lemma attempt {ε' : Type} (h : Yields work Q) :
    Yields (attempt work : WorkM σ ε' _) fun result => ∀ a, result = .ok a → Q a := by
  intro s result s' hrun a ha
  rw [on_attempt] at hrun
  obtain ⟨hresult, rfl⟩ := Prod.mk.inj hrun
  exact h s a _ (Prod.ext ((Except.ok.inj hresult).trans ha) rfl)

lemma mapM {f : α → WorkM σ ε β} {l : List α} (h : ∀ a ∈ l, Yields (f a) R) :
    Yields (l.mapM f) fun bs => ∀ b ∈ bs, R b := by
  induction l with
  | nil =>
    rw [List.mapM_nil]
    exact pure (List.forall_mem_nil _)
  | cons a l ih =>
    obtain ⟨hfirst, hrest⟩ := List.forall_mem_cons.mp h
    rw [List.mapM_cons]
    exact bind hfirst fun b hb => bind (ih hrest) fun bs hbs =>
      pure (List.forall_mem_cons.mpr ⟨hb, hbs⟩)

end Yields

end WorkM

namespace SessionM

open WorkM

variable {ε α β : Type}

@[simp] lemma on_ofDisk (work : DiskM ε α) (s : Session) :
    (ofDisk work).on s = ((work.on s.disk).1, { s with disk := (work.on s.disk).2 }) := rfl

@[simp] lemma on_ask (question : Disk → α) (s : Session) :
    (ask question : SessionM ε α).on s = (.ok (question s.disk), s) := rfl

@[simp] lemma on_consult (question : Disk → Except ε α) (s : Session) :
    (consult question).on s = (question s.disk, s) :=
  WorkM.on_consult _ s

lemma on_ofDisk_eq_ok {work : DiskM ε α} {s s' : Session} {a : α} :
    (ofDisk work).on s = (.ok a, s') ↔
      ∃ d', work.on s.disk = (.ok a, d') ∧ s' = { s with disk := d' } := by
  rw [on_ofDisk]
  generalize work.on s.disk = outcome
  obtain ⟨result, d'⟩ := outcome
  simp [and_assoc, eq_comm]

lemma on_consult_bind_eq_ok {question : Disk → Except ε α} {f : α → SessionM ε β}
    {s s' : Session} {b : β} :
    (consult question >>= f).on s = (.ok b, s') ↔
      ∃ a, question s.disk = .ok a ∧ (f a).on s = (.ok b, s') :=
  WorkM.on_consult_bind_eq_ok

lemma on_ask_bind (question : Disk → α) (f : α → SessionM ε β) (s : Session) :
    (ask question >>= f).on s = (f (question s.disk)).on s :=
  WorkM.on_ask_bind _ f s

end SessionM

end AddonBuild
