import Mathlib.Data.Nat.Notation

namespace Cbc

variable {β : Type} (xor : β → β → β)

def previous (iv : β) (c : ℕ → β) : ℕ → β
  | 0 => iv
  | k + 1 => c k

def Encrypts (E : β → Option β) (iv : β) (p c : ℕ → β) (n : ℕ) : Prop :=
  ∀ k < n, E (xor (p k) (previous iv c k)) = some (c k)

def Decrypts (D : β → Option β) (iv : β) (c p : ℕ → β) (n : ℕ) : Prop :=
  ∀ k < n, ∃ t, D (c k) = some t ∧ p k = xor t (previous iv c k)

-- as Decrypts, but the chaining value is the plain block that took the place of the cipher block
def DecryptsInPlace (D : β → Option β) (iv : β) (c p : ℕ → β) (n : ℕ) : Prop :=
  ∀ k < n, ∃ t, D (c k) = some t ∧ p k = xor t (previous iv p k)

variable {xor}

theorem previous_congr {iv : β} {c c' : ℕ → β} {k : ℕ} (h : ∀ j < k, c j = c' j) :
    previous iv c k = previous iv c' k := by
  cases k with
  | zero => rfl
  | succ k => exact h k (Nat.lt_succ_self k)

theorem Decrypts.congr {D : β → Option β} {iv : β} {p p' c c' : ℕ → β} {n : ℕ}
    (hp : ∀ k < n, p k = p' k) (hc : ∀ k < n, c k = c' k) :
    Decrypts xor D iv c p n ↔ Decrypts xor D iv c' p' n := by
  refine forall_congr' fun k => forall_congr' fun hk => ?_
  rw [hp k hk,hc k hk,previous_congr (fun j hj => hc j (Nat.lt_trans hj hk))]

theorem Decrypts.of_encrypts {E D : β → Option β} (hx : ∀ a b, xor (xor a b) b = a)
    (hD : ∀ b c, E b = some c → D c = some b) {iv : β} {p c : ℕ → β} {n : ℕ}
    (h : Encrypts xor E iv p c n) : Decrypts xor D iv c p n :=
  fun k hk => ⟨_,hD _ _ (h k hk),(hx _ _).symm⟩

theorem Encrypts.congr {E : β → Option β} {iv : β} {p c c' : ℕ → β} {n : ℕ}
    (hc : ∀ k < n, c k = c' k) : Encrypts xor E iv p c n ↔ Encrypts xor E iv p c' n := by
  refine forall_congr' fun k => forall_congr' fun hk => ?_
  rw [hc k hk,previous_congr (fun j hj => hc j (Nat.lt_trans hj hk))]

theorem DecryptsInPlace.congr {D : β → Option β} {iv : β} {c p p' : ℕ → β} {n : ℕ}
    (hp : ∀ k < n, p k = p' k) :
    DecryptsInPlace xor D iv c p n ↔ DecryptsInPlace xor D iv c p' n := by
  refine forall_congr' fun k => forall_congr' fun hk => ?_
  rw [hp k hk,previous_congr (fun j hj => hp j (Nat.lt_trans hj hk))]

theorem DecryptsInPlace.unique {D : β → Option β} {iv : β} {c p p' : ℕ → β} {n : ℕ}
    (h : DecryptsInPlace xor D iv c p n) (h' : DecryptsInPlace xor D iv c p' n) :
    ∀ k < n, p k = p' k := by
  intro k
  induction k using Nat.strongRecOn with
  | ind k ih =>
    intro hk
    obtain ⟨t,ht,hp⟩ := h k hk
    obtain ⟨u,hu,hp'⟩ := h' k hk
    rw [ht] at hu
    rw [hp,hp',Option.some.inj hu,previous_congr fun j hj => ih j hj (Nat.lt_trans hj hk)]

-- the block before the last is the last one whose successor reads what took its place
theorem Decrypts.in_place_iff {D : β → Option β} (hx : ∀ t a b, xor t a = xor t b → a = b) {iv : β}
    {c p : ℕ → β} {n : ℕ} (h : Decrypts xor D iv c p n) :
    DecryptsInPlace xor D iv c p n ↔
      ∀ k, k + 1 < n → ∀ t, D (c k) = some t → xor t (previous iv c k) = c k := by
  constructor
  · intro hin k hk t ht
    obtain ⟨u,hu,hp⟩ := hin (k + 1) hk
    obtain ⟨v,hv,hp'⟩ := h (k + 1) hk
    obtain ⟨w,hw,hplain⟩ := h k (Nat.lt_of_succ_lt hk)
    rw [hu] at hv
    cases hv
    rw [ht] at hw
    cases hw
    exact hplain.symm.trans (hx u _ _ (hp.symm.trans hp'))
  · intro hkept k hk
    obtain ⟨t,ht,hp⟩ := h k hk
    refine ⟨t,ht,?_⟩
    cases k with
    | zero => exact hp
    | succ k =>
      obtain ⟨u,hu,hplain⟩ := h k (Nat.lt_of_succ_lt hk)
      rw [hp,previous,previous,hplain,hkept k hk u hu]

section Compare

variable {iv iv' : β} {p p' c c' : ℕ → β} {n k : ℕ}

-- equal messages have equal ciphertexts as far as they go, and the first difference shows
theorem Encrypts.prefix_iff {E : β → Option β} (hE : ∀ a b, E a = E b → a = b)
    (hx : ∀ a b, xor (xor a b) b = a) (h : Encrypts xor E iv p c n)
    (h' : Encrypts xor E iv p' c' n) {j : ℕ} (hj : j ≤ n) :
    (∀ k < j, c k = c' k) ↔ ∀ k < j, p k = p' k := by
  constructor
  · intro hc k hk
    have hprevious : previous iv c k = previous iv c' k :=
      previous_congr fun i hi => hc i (Nat.lt_trans hi hk)
    have hblock : E (xor (p k) (previous iv c k)) = E (xor (p' k) (previous iv c k)) := by
      rw [h k (Nat.lt_of_lt_of_le hk hj),hc k hk,hprevious]
      exact (h' k (Nat.lt_of_lt_of_le hk hj)).symm
    rw [← hx (p k) (previous iv c k),hE _ _ hblock,hx]
  · intro hp k
    induction k using Nat.strongRecOn with
    | ind k ih =>
      intro hk
      have hprevious : previous iv c k = previous iv c' k :=
        previous_congr fun i hi => ih i hi (Nat.lt_trans hi hk)
      have hblock := h k (Nat.lt_of_lt_of_le hk hj)
      rw [hp k hk,hprevious,h' k (Nat.lt_of_lt_of_le hk hj)] at hblock
      exact (Option.some.inj hblock).symm

-- a block that is not changed itself takes over the change of its chaining value
theorem Decrypts.kept_block {D : β → Option β} (hx : ∀ a b, xor (xor a b) b = a)
    (h : Decrypts xor D iv c p n) (h' : Decrypts xor D iv' c' p' n) (hk : k < n)
    (hc : c' k = c k) : p' k = xor (xor (p k) (previous iv c k)) (previous iv' c' k) := by
  obtain ⟨t,ht,hp⟩ := h k hk
  obtain ⟨t',ht',hp'⟩ := h' k hk
  rw [hc,ht] at ht'
  rw [hp',hp,hx,Option.some.inj ht']

theorem Decrypts.changed_block {D : β → Option β} (hD : ∀ a b, D a = D b → a = b)
    (hx : ∀ a b, xor (xor a b) b = a) (h : Decrypts xor D iv c p n)
    (h' : Decrypts xor D iv' c' p' n) (hk : k < n)
    (hprevious : previous iv' c' k = previous iv c k) : p' k = p k ↔ c' k = c k := by
  obtain ⟨t,ht,hp⟩ := h k hk
  obtain ⟨t',ht',hp'⟩ := h' k hk
  constructor
  · intro heq
    have hplain : xor t' (previous iv c k) = xor t (previous iv c k) := by
      rw [← hp,← heq,hp',hprevious]
    refine hD _ _ ?_
    rw [ht',ht,← hx t' (previous iv c k),hplain,hx]
  · intro hc
    rw [h.kept_block hx h' hk hc,hprevious,hx]

end Compare

end Cbc
