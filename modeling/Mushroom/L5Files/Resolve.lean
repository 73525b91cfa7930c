import Mushroom.L5Files.Lookup

/-!
# Path resolution ends

Two facts about every call of path resolution, each put together call by call
along `andThen`. `Returns c w x`: the call returns, has taken at most `c` steps
and `linkCost` more for every link, and has only used up the limit for links.
`Agree m x y`: the same call with `m` more links to follow returns the same,
unless the first one has run out of links.
-/
namespace Mushroom.L5

open L1 Walk

variable {N α β : Type} {w₁ : Walk} {f : α → Walk → Run β}

/-- A link is one step and leads to a path of fewer than `pathMax` bytes. -/
def linkCost : Nat := pathMax + 1

/-! ## Returning -/

/-- From `w` to `w'` in `c` steps, those of the followed links aside. -/
structure Adv (c : Nat) (w w' : Walk) : Prop where
  sum : w'.limit + w'.followed = w.limit + w.followed
  limit_le : w'.limit ≤ w.limit
  steps_le : w'.steps + linkCost * w'.limit ≤ w.steps + linkCost * w.limit + c

lemma Adv.refl (w : Walk) : Adv 0 w w := ⟨rfl, le_refl _, le_refl _⟩

lemma Adv.tick (w : Walk) : Adv 1 w w.tick := ⟨rfl, le_refl _, by simp only [Walk.tick]; omega⟩

variable {w w' w'' : Walk} {c' c : Nat}

lemma Adv.trans (h : Adv c w w') (h' : Adv c' w' w'') : Adv (c + c') w w'' := by
  have h1 := h.sum
  have h2 := h'.sum
  have h3 := h.steps_le
  have h4 := h'.steps_le
  exact ⟨by omega, h'.limit_le.trans h.limit_le, by omega⟩

lemma Adv.mono (h : Adv c w w') (hc : c ≤ c') : Adv c' w w' := ⟨h.sum, h.limit_le, h.steps_le.trans (by omega)⟩

/-- A followed link pays for the lookup of its target. -/
lemma Adv.follow (hf : w.followSymlink = some w₁) (h : Adv c w₁ w') (hc : c ≤ pathMax) : Adv 0 w w' := by
  simp only [followSymlink] at hf
  split at hf
  · cases hf
  rename_i hpos
  cases hf
  have h1 := h.sum
  have h2 := h.limit_le
  have h3 := h.steps_le
  simp only at h1 h2 h3
  have hmul : linkCost * w.limit = linkCost * (w.limit - 1) + linkCost := by
    rw [← Nat.mul_succ]
    congr 1
    omega
  have hcost : linkCost = pathMax + 1 := rfl
  exact ⟨by omega, by omega, by omega⟩

def Returns (c : Nat) (w : Walk) (x : Run α) : Prop := ∃ r w', x = some (r, w') ∧ Adv c w w'

variable {x : Run α}

lemma Returns.mono (h : Returns c w x) (hc : c ≤ c') : Returns c' w x := by
  obtain ⟨r, w', hx, ha⟩ := h
  exact ⟨r, w', hx, ha.mono hc⟩

lemma Returns.now (r : Except ErrorKind α) (w : Walk) : Returns 0 w (some (r, w)) := ⟨r, w, rfl, .refl w⟩

lemma Returns.andThen (hx : Returns c w x)
    (hf : ∀ a w', Adv c w w' → Returns c' w' (f a w')) : Returns (c + c') w (x.andThen f) := by
  obtain ⟨r, w₁, rfl, ha⟩ := hx
  cases r with
  | error e => exact ⟨.error e, w₁, rfl, ha.mono (Nat.le_add_right c c')⟩
  | ok a =>
    obtain ⟨r, w', hr, ha'⟩ := hf a w₁ ha
    exact ⟨r, w', hr, ha.trans ha'⟩

lemma Returns.last {x : Run α} {f : α → Walk → Run β} (hx : Returns c w x)
    (hf : ∀ a w', Adv c w w' → Returns 0 w' (f a w')) : Returns c w (x.andThen f) :=
  Returns.andThen hx hf

lemma Returns.first (hx : Returns 0 w x)
    (hf : ∀ a w', Adv 0 w w' → Returns c w' (f a w')) : Returns c w (x.andThen f) :=
  (Returns.andThen hx hf).mono (Nat.zero_add c).le

lemma Returns.ofExcept {x : Except ErrorKind α} (hf : ∀ a, Returns c w (f a w)) :
    Returns c w ((Run.ofExcept x w).andThen f) := by
  cases x with
  | error e => exact (Returns.now (.error e) w).mono (Nat.zero_le c)
  | ok a => exact hf a

lemma Returns.tick (h : Returns c w.tick x) : Returns (c + 1) w x := by
  obtain ⟨r, w', hx, ha⟩ := h
  exact ⟨r, w', hx, ((Adv.tick w).trans ha).mono (by omega)⟩

lemma Returns.follow (hf : w.followSymlink = some w₁) (h : Returns c w₁ x) (hc : c ≤ pathMax) : Returns 0 w x := by
  obtain ⟨r, w', hx, ha⟩ := h
  exact ⟨r, w', hx, ha.follow hf hc⟩

section

variable (v : Vfs N) (ctx : FileAccessContext)

variable {fuel linkFuel : Nat} {resolve : N → N → Walk → Run N}

end

/-! ## A larger limit -/

def Walk.more (w : Walk) (m : Nat) : Walk := { w with limit := w.limit + m }

/-- `y` is `x` with `m` more links to follow. -/
def Agree (m : Nat) (x y : Run α) : Prop :=
  ∀ r w r' w', x = some (r, w) → y = some (r', w') → (r' = r ∧ w' = w.more m) ∨ (r = .error .loop ∧ 0 < m)

lemma Agree.now (m : Nat) (r : Except ErrorKind α) (w : Walk) : Agree m (some (r, w)) (some (r, w.more m)) := by
  intro r1 w₁ r2 w2 h1 h2
  cases h1
  cases h2
  exact .inl ⟨rfl, rfl⟩

variable {m : Nat} {g : α → Walk → Run β}

lemma Agree.andThen {y : Run α} (h : Agree m x y)
    (hf : ∀ a w, Agree m (f a w) (g a (w.more m))) : Agree m (x.andThen f) (y.andThen g) := by
  intro r w r' w' hx hy
  match x, y, h with
  | none, _, _ => cases hx
  | some _, none, _ => cases hy
  | some (r1, w₁), some (r2, w2), h =>
    rcases h r1 w₁ r2 w2 rfl rfl with ⟨rfl, rfl⟩ | ⟨rfl, hm⟩
    · cases r2 with
      | error e =>
        cases hx
        cases hy
        exact .inl ⟨rfl, rfl⟩
      | ok a => exact hf a w₁ r w r' w' hx hy
    · cases hx
      exact .inr ⟨rfl, hm⟩

lemma Agree.ofExcept {x : Except ErrorKind α} (hf : ∀ a, Agree m (f a w) (g a (w.more m))) :
    Agree m ((Run.ofExcept x w).andThen f) ((Run.ofExcept x (w.more m)).andThen g) := by
  cases x with
  | error e => exact .now m (.error e) w
  | ok a => exact hf a

/-- Following a link: the call with the larger limit may go on alone. -/
lemma Agree.follow {f g : Walk → Run α} (hf : ∀ w, Agree m (f w) (g (w.more m))) :
    Agree m (match w.followSymlink with | none => some (.error .loop, w) | some w => f w)
      (match (w.more m).followSymlink with | none => some (.error .loop, w.more m) | some w => g w) := by
  by_cases hw : w.limit = 0
  · have hnone : w.followSymlink = none := if_pos hw
    rw [hnone]
    by_cases hm : m = 0
    · subst hm
      have hnone' : (w.more 0).followSymlink = none := if_pos hw
      rw [hnone']
      exact .now 0 _ w
    · intro r w₁ r' w2 h1 _
      cases h1
      exact .inr ⟨rfl, Nat.pos_of_ne_zero hm⟩
  · have hsome : w.followSymlink = some ⟨w.limit - 1, w.followed + 1, w.steps + 1⟩ := if_neg hw
    have hsome' : (w.more m).followSymlink = some (more ⟨w.limit - 1, w.followed + 1, w.steps + 1⟩ m) := by
      rw [followSymlink, if_neg (by simp only [more]; omega)]
      simp only [more, Option.some.injEq, mk.injEq, and_true]
      omega
    rw [hsome, hsome']
    exact hf _

section

variable {v : Vfs N} {ctx : FileAccessContext} {m : Nat}

variable {f g : N → N → Walk → Run N}

end

/-! ## Every call ends -/

/-- A call ends whatever the limit for links is: with the same result for any fuel above it, after at most `limit`
links, in a number of steps bounded by the length of its paths and of the targets. A larger limit gives the
same, unless the limit was too small: then the error is `Loop`. -/
structure Ends (run : Nat → Walk → Run α) (length : Nat) : Prop where
  returns : ∀ limit, ∃ r w, (∀ fuel, limit < fuel → run fuel (.start limit) = some (r, w)) ∧
    w.followed ≤ limit ∧ w.steps ≤ length + limit * linkCost
  same : ∀ limit limit' fuel fuel' r w r' w', limit ≤ limit' → run fuel (.start limit) = some (r, w) →
    run fuel' (.start limit') = some (r', w') → r' = r ∨ r = .error .loop
  exhausted : ∀ limit limit' fuel fuel' r w r' w', limit ≤ limit' → run fuel (.start limit) = some (r, w) →
    run fuel' (.start limit') = some (r', w') → limit < w'.followed → r = .error .loop

/-- A link to itself is followed sixteen times. -/
example : resolveLinks ⟨(), fun _ => .error .noEnt, fun _ => .error .notDir, fun _ _ _ => .error .notDir,
    fun _ _ => some (.node (.ok ())), fun _ _ => .error .inval⟩ ⟨none, 0, 0, []⟩ 17 () () (.start 16) =
      some (.error .loop, ⟨0, 16, 16⟩) := rfl

end Mushroom.L5
