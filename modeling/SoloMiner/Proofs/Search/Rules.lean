import SoloMiner.Search.Worker

/-! # Reasoning about searches

    A search ends with a result or early, and the worker outlives both. Three views of it are
    used. `Meets` says what a search makes of one worker in either case. `Keeps` says what holds
    of the worker however the search ends, so that it covers runs cut off at any point. The
    lemmas on `bind` take a search that came to its end apart. -/

namespace SoloMiner

namespace Search

variable {α β : Type}

/-! ## Postconditions -/

/-- Started by `w`, the search leaves a worker with `P` if it ends early, and a result and a
    worker with `R` if it comes to its end. -/
def Meets (m : Search α) (w : Worker) (P : Worker → Prop) (R : α → Worker → Prop) : Prop :=
  match m w with
  | .ok x w' => R x w'
  | .error _ w' => P w'

section
variable {P : Worker → Prop} {R R' : α → Worker → Prop} {S : β → Worker → Prop} {w : Worker}

theorem meets_pure {x : α} (h : R x w) : Meets (pure x) w P R := h

theorem meets_throw {e : RunEnd} (h : P w) : Meets (throw e : Search α) w P R := h

/-- What the first search leaves the second begins with, unless the first one fails. -/
theorem meets_bind {m : Search α} {f : α → Search β} (hm : Meets m w P R)
    (hf : ∀ x w', R x w' → Meets (f x) w' P S) : Meets (m >>= f) w P S := by
  unfold Meets at hm
  show match EStateM.bind m f w with
    | .ok x w' => S x w'
    | .error _ w' => P w'
  unfold EStateM.bind
  cases hres : m w with
  | ok x w' =>
    rw [hres] at hm
    exact hf x w' hm
  | error e w' =>
    rw [hres] at hm
    exact hm

theorem meets_get_bind {f : Worker → Search β} (h : Meets (f w) w P S) :
    Meets (get >>= f) w P S := h

theorem meets_modify_bind {g : Worker → Worker} {f : PUnit → Search β}
    (h : Meets (f ⟨⟩) (g w) P S) : Meets (modify g >>= f) w P S := h

/-- What a search meets can be weakened at both of its ends. -/
theorem Meets.imp {P' : Worker → Prop} {m : Search α} (h : Meets m w P R)
    (hP : ∀ w', P w' → P' w') (hR : ∀ x w', R x w' → R' x w') : Meets m w P' R' := by
  unfold Meets at h ⊢
  cases hres : m w with
  | ok x w' =>
    rw [hres] at h
    exact hR x w' h
  | error e w' =>
    rw [hres] at h
    exact hP w' h

theorem Meets.of_ok {m : Search α} {x : α} {w' : Worker} (h : Meets m w P R)
    (hok : m w = .ok x w') : R x w' := by
  unfold Meets at h
  rwa [hok] at h

end

/-! ## Invariants -/

/-- From a worker with `I` the search leaves a worker with `I`, however it ends, and its
    result, if it gives one, has `Q`. -/
def Keeps (I : Worker → Prop) (m : Search α) (Q : α → Prop) : Prop :=
  ∀ w, I w →
    match m w with
    | .ok x w' => I w' ∧ Q x
    | .error _ w' => I w'

/-- The worker that a search leaves. -/
def left : EStateM.Result RunEnd Worker α → Worker
  | .ok _ w => w
  | .error _ w => w

/-- However it ends, what holds at either end holds of the worker that is left. -/
theorem Meets.left {m : Search α} {w : Worker} {P : Worker → Prop}
    (h : Meets m w P fun _ => P) : P (left (m w)) := by
  unfold Meets at h
  cases hres : m w with
  | ok x w' =>
    rw [hres] at h
    exact h
  | error e w' =>
    rw [hres] at h
    exact h

variable {I : Worker → Prop} {Q : α → Prop} {R : β → Prop}

theorem left_of_keeps {m : Search α} (h : Keeps I m Q) {w : Worker} (hw : I w) : I (left (m w)) :=
  Meets.left (Meets.imp (h w hw) (fun _ hend => hend) fun _ _ hend => hend.1)

theorem keeps_pure {x : α} (h : Q x) : Keeps I (pure x) Q :=
  fun _ hw => ⟨hw, h⟩

theorem keeps_throw (e : RunEnd) : Keeps I (throw e : Search α) Q :=
  fun _ hw => hw

theorem keeps_get : Keeps I (get : Search Worker) I :=
  fun _ hw => ⟨hw, hw⟩

theorem keeps_modify {f : Worker → Worker} (h : ∀ w, I w → I (f w)) :
    Keeps I (modify f : Search PUnit) fun _ => True :=
  fun w hw => ⟨h w hw, trivial⟩

theorem keeps_bind {m : Search α} {f : α → Search β} (hm : Keeps I m Q)
    (hf : ∀ x, Q x → Keeps I (f x) R) : Keeps I (m >>= f) R :=
  fun w hw => meets_bind (hm w hw) fun x w' h => hf x h.2 w' h.1

/-! ## Taking runs apart -/

/-- A chain of searches that succeeds is made of searches that do. -/
theorem bind_eq_ok {m : Search α} {f : α → Search β} {w w'' : Worker} {y : β}
    (h : (m >>= f) w = .ok y w'') : ∃ x w', m w = .ok x w' ∧ f x w' = .ok y w'' := by
  change EStateM.bind m f w = .ok y w'' at h
  unfold EStateM.bind at h
  cases hres : m w with
  | ok x w' =>
    rw [hres] at h
    exact ⟨x, w', rfl, h⟩
  | error e w' =>
    rw [hres] at h
    cases h

theorem bind_of_ok {m : Search α} {f : α → Search β} {w w' : Worker} {x : α}
    (h : m w = .ok x w') : (m >>= f) w = f x w' := by
  change EStateM.bind m f w = f x w'
  unfold EStateM.bind
  rw [h]

theorem bind_of_error {m : Search α} {f : α → Search β} {w w' : Worker} {e : RunEnd}
    (h : m w = .error e w') : (m >>= f) w = .error e w' := by
  change EStateM.bind m f w = .error e w'
  unfold EStateM.bind
  rw [h]

end Search

namespace Worker

variable {α : Type} {I : Worker → Prop} {Q : α → Prop}

/-- A draw takes words, and gives what the sampler may give. -/
theorem keeps_draw {sample : Words → Option (α × Words)}
    (hI : ∀ w words, I w → I { w with words := words })
    (hQ : ∀ words x rest, sample words = some (x, rest) → Q x) :
    Search.Keeps I (draw sample) Q := by
  intro w hw
  simp only [draw]
  cases h : sample w.words with
  | none => exact hw
  | some drawn => exact ⟨hI w drawn.2 hw, hQ w.words drawn.1 drawn.2 h⟩

theorem keeps_look (hI : ∀ w n, I w → I { w with looks := n }) :
    Search.Keeps I look fun _ => True :=
  fun w hw => ⟨hI w _ hw, trivial⟩

end Worker
end SoloMiner
