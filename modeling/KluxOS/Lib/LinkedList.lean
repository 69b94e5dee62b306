import Mathlib.Data.List.Nodup
import Mathlib.Data.List.Range
import Mathlib.Data.Finset.Card

namespace LinkedList

variable {α : Type} (next : α → Option ℕ) (heap : List α)

inductive Chain : Option ℕ → List ℕ → Prop
  | nil : Chain none []
  | cons {p : ℕ} {a : α} {l : List ℕ} :
      heap[p]? = some a → Chain (next a) l → Chain (some p) (p :: l)

def listing : ℕ → Option ℕ → List ℕ
  | _,none => []
  | 0,some _ => []
  | fuel + 1,some p =>
    match heap[p]? with
    | none => []
    | some a => p :: listing fuel (next a)

def ends : ℕ → Option ℕ → Bool
  | _,none => true
  | 0,some _ => false
  | fuel + 1,some p =>
    match heap[p]? with
    | none => false
    | some a => ends fuel (next a)

variable {next heap} {start : Option ℕ} {l : List ℕ}

theorem chain_of_ends {fuel : ℕ} (h : ends next heap fuel start = true) :
    ∃ l, Chain next heap start l := by
  induction fuel generalizing start with
  | zero =>
    cases start with
    | none => exact ⟨[],.nil⟩
    | some p => cases h
  | succ fuel ih =>
    cases start with
    | none => exact ⟨[],.nil⟩
    | some p =>
      rw [ends] at h
      split at h
      · cases h
      · next a ha =>
        obtain ⟨l,hl⟩ := ih h
        exact ⟨p :: l,.cons ha hl⟩

theorem listing_congr {heap' : List α}
    (h : ∀ p : ℕ, (heap'[p]?).map next = (heap[p]?).map next) {fuel : ℕ} {start : Option ℕ} :
    listing next heap' fuel start = listing next heap fuel start := by
  induction fuel generalizing start with
  | zero => cases start <;> rfl
  | succ fuel ih =>
    cases start with
    | none => rfl
    | some p =>
      have hp := h p
      simp only [listing]
      cases ha : heap[p]? with
      | none =>
        rw [ha] at hp
        rw [Option.map_eq_none_iff.mp hp]
      | some a =>
        rw [ha] at hp
        obtain ⟨b,hb,hnext⟩ := Option.map_eq_some_iff.mp hp
        rw [hb]
        simp only [hnext,ih]

theorem Chain.listing_eq (h : Chain next heap start l) {fuel : ℕ} (hfuel : l.length ≤ fuel) :
    listing next heap fuel start = l := by
  induction h generalizing fuel with
  | nil => cases fuel <;> rfl
  | cons ha _ ih =>
    cases fuel with
    | zero => simp at hfuel
    | succ fuel =>
      simp only [listing,ha]
      rw [ih (by simpa using hfuel)]

theorem Chain.unique (h : Chain next heap start l) {m : List ℕ} (h' : Chain next heap start m) :
    l = m := by
  induction h generalizing m with
  | nil =>
    cases h'
    rfl
  | cons ha _ ih =>
    cases h' with
    | cons ha' hm =>
      rw [ha] at ha'
      cases ha'
      rw [ih hm]

theorem Chain.lt_of_mem (h : Chain next heap start l) {p : ℕ} (hp : p ∈ l) : p < heap.length := by
  induction h with
  | nil => simp at hp
  | cons ha _ ih =>
    rcases List.mem_cons.mp hp with rfl | hp
    · exact (List.getElem?_eq_some_iff.mp ha).1
    · exact ih hp

theorem Chain.suffix (h : Chain next heap start l) {p : ℕ} (hp : p ∈ l) :
    ∃ m, Chain next heap (some p) m ∧ m <:+ l := by
  induction h with
  | nil => simp at hp
  | @cons q a l ha hl ih =>
    rcases List.mem_cons.mp hp with rfl | hp
    · exact ⟨p :: l,.cons ha hl,List.suffix_refl _⟩
    · obtain ⟨m,hm,hsuffix⟩ := ih hp
      exact ⟨m,hm,hsuffix.trans (List.suffix_cons q l)⟩

-- a cell met twice would have the same rest twice, at two lengths
theorem Chain.nodup (h : Chain next heap start l) : l.Nodup := by
  induction h with
  | nil => exact List.nodup_nil
  | @cons p a l ha hl ih =>
    refine List.nodup_cons.mpr ⟨fun hp => ?_,ih⟩
    obtain ⟨m,hm,hsuffix⟩ := hl.suffix hp
    have hlen := hsuffix.length_le
    rw [hm.unique (.cons ha hl),List.length_cons] at hlen
    omega

theorem Chain.length_le (h : Chain next heap start l) : l.length ≤ heap.length := by
  have hsub : l.toFinset ⊆ Finset.range heap.length := by
    intro p hp
    exact Finset.mem_range.mpr (h.lt_of_mem (List.mem_toFinset.mp hp))
  have hcard := Finset.card_le_card hsub
  rwa [List.toFinset_card_of_nodup h.nodup,Finset.card_range] at hcard

theorem Chain.frame_mem {heap' : List α} (h : Chain next heap start l)
    (hkeep : ∀ p ∈ l, ∀ a, heap[p]? = some a → ∃ b, heap'[p]? = some b ∧ next b = next a) :
    Chain next heap' start l := by
  induction h with
  | nil => exact .nil
  | cons ha _ ih =>
    obtain ⟨b,hb,hnext⟩ := hkeep _ List.mem_cons_self _ ha
    exact .cons hb (hnext ▸ ih fun p hp a ha => hkeep p (List.mem_cons_of_mem _ hp) a ha)

theorem Chain.frame {heap' : List α} (h : Chain next heap start l)
    (hkeep : ∀ (p : ℕ) (a : α), heap[p]? = some a →
      ∃ b, heap'[p]? = some b ∧ next b = next a) : Chain next heap' start l :=
  h.frame_mem fun p _ a ha => hkeep p a ha

theorem Chain.tail {p : ℕ} {a : α} (h : Chain next heap (some p) l) (ha : heap[p]? = some a) :
    ∃ m, l = p :: m ∧ Chain next heap (next a) m := by
  cases h with
  | @cons _ b m hb hm =>
    rw [ha] at hb
    cases hb
    exact ⟨m,rfl,hm⟩

theorem Chain.get {p : ℕ} (h : Chain next heap start l) (hp : p ∈ l) : ∃ a, heap[p]? = some a :=
  ⟨_,List.getElem?_eq_getElem (h.lt_of_mem hp)⟩

theorem Chain.head {p : ℕ} (h : Chain next heap start (p :: l)) :
    start = some p ∧ ∃ a, heap[p]? = some a ∧ Chain next heap (next a) l := by
  cases h with
  | @cons _ a _ ha hl => exact ⟨rfl,a,ha,hl⟩

theorem Chain.start_eq (h : Chain next heap start l) : start = l.head? := by
  cases h <;> rfl

theorem Chain.drop {pre post : List ℕ} (h : Chain next heap start (pre ++ post)) :
    Chain next heap post.head? post := by
  induction pre generalizing start with
  | nil => exact h.start_eq ▸ h
  | cons p pre ih =>
    obtain ⟨-,a,-,hl⟩ := h.head
    exact ih hl

theorem Chain.next_eq {pre post : List ℕ} {p : ℕ} {a : α}
    (h : Chain next heap start (pre ++ p :: post)) (ha : heap[p]? = some a) :
    next a = post.head? := by
  obtain ⟨-,b,hb,hpost⟩ := h.drop.head
  rw [ha] at hb
  cases hb
  exact hpost.start_eq

-- linking q to the cell behind p takes p out
theorem Chain.unlink {heap' : List α} {pre post : List ℕ} {p q : ℕ}
    (h : Chain next heap start (pre ++ q :: p :: post))
    (hkeep : ∀ (r : ℕ) (a : α), r ≠ q → r ∈ pre ++ post → heap[r]? = some a →
      ∃ b, heap'[r]? = some b ∧ next b = next a)
    (hlink : ∀ a, heap[p]? = some a → ∃ b, heap'[q]? = some b ∧ next b = next a) :
    Chain next heap' start (pre ++ q :: post) := by
  induction pre generalizing start with
  | nil =>
    have hnodup := h.nodup
    obtain ⟨rfl,a,-,hp⟩ := h.head
    obtain ⟨-,b,hb,hpost⟩ := hp.head
    obtain ⟨e,he,hnext⟩ := hlink b hb
    refine .cons he (hnext ▸ hpost.frame_mem fun r hr => ?_)
    have hrq : r ≠ q := by
      rintro rfl
      exact (List.nodup_cons.mp hnodup).1 (List.mem_cons_of_mem p hr)
    exact fun c hc => hkeep r c hrq hr hc
  | cons r pre ih =>
    have hnodup := h.nodup
    obtain ⟨rfl,a,ha,hl⟩ := h.head
    have hrq : r ≠ q := by
      rintro rfl
      exact (List.nodup_cons.mp hnodup).1 (List.mem_append_right pre List.mem_cons_self)
    obtain ⟨b,hb,hnext⟩ := hkeep r a hrq List.mem_cons_self ha
    refine .cons hb (hnext ▸ ih hl fun r' c hr' hmem hc => ?_)
    exact hkeep r' c hr' (List.mem_cons_of_mem r hmem) hc

theorem erase_middle {pre post : List ℕ} {p q : ℕ} (h : (pre ++ q :: p :: post).Nodup) :
    (pre ++ q :: p :: post).erase p = pre ++ q :: post := by
  have hsplit : ∀ rest : List ℕ, pre ++ q :: rest = (pre ++ [q]) ++ rest := by simp
  rw [hsplit] at h
  have hnot : p ∉ pre ++ [q] := fun hin =>
    (List.nodup_append.mp h).2.2 p hin p List.mem_cons_self rfl
  rw [hsplit (p :: post),List.erase_append_right _ hnot,List.erase_cons_head,← hsplit]

theorem Chain.erase {heap' : List α} {pre post : List ℕ} {p q : ℕ}
    (h : Chain next heap start (pre ++ q :: p :: post))
    (hkeep : ∀ (r : ℕ) (a : α), r ≠ q → r ≠ p → heap[r]? = some a →
      ∃ b, heap'[r]? = some b ∧ next b = next a)
    (hlink : ∀ a, heap[p]? = some a → ∃ b, heap'[q]? = some b ∧ next b = next a) :
    Chain next heap' start ((pre ++ q :: p :: post).erase p) := by
  have hnodup := h.nodup
  rw [erase_middle hnodup]
  refine h.unlink (fun r a hrq hr ha => hkeep r a hrq ?_ ha) hlink
  rintro rfl
  have hin : r ∈ (pre ++ q :: r :: post).erase r := by
    rw [erase_middle hnodup]
    rcases List.mem_append.mp hr with hpre | hpost
    · exact List.mem_append_left _ hpre
    · exact List.mem_append_right pre (List.mem_cons_of_mem q hpost)
  exact (hnodup.mem_erase_iff.mp hin).1 rfl

variable (next heap) in
-- the cell whose next is p, if the walk comes to one before its end
def predecessor (p : ℕ) : ℕ → Option ℕ → Option (Option ℕ)
  | _,none => some none
  | 0,some _ => none
  | fuel + 1,some q =>
    match heap[q]? with
    | none => none
    | some a => if next a = some p then some (some q) else predecessor p fuel (next a)

theorem Chain.predecessor (h : Chain next heap start l) {p : ℕ} (hp : start ≠ some p) {fuel : ℕ}
    (hfuel : l.length ≤ fuel) :
    (∃ pre q post, l = pre ++ q :: p :: post ∧
      LinkedList.predecessor next heap p fuel start = some (some q)) ∨
    (p ∉ l ∧ LinkedList.predecessor next heap p fuel start = some none) := by
  induction h generalizing fuel with
  | nil =>
    refine .inr ⟨List.not_mem_nil,?_⟩
    cases fuel <;> rfl
  | @cons q a l ha hl ih =>
    cases fuel with
    | zero => simp at hfuel
    | succ fuel =>
      simp only [LinkedList.predecessor,ha]
      by_cases hnext : next a = some p
      · rw [hnext] at hl
        cases l with
        | nil => cases hl
        | cons r post =>
          cases hl.head.1
          exact .inl ⟨[],q,post,rfl,if_pos hnext⟩
      · rw [if_neg hnext]
        rcases ih hnext (by simpa using hfuel) with ⟨pre,r,post,rfl,hpred⟩ | ⟨hmem,hpred⟩
        · exact .inl ⟨q :: pre,r,post,rfl,hpred⟩
        · refine .inr ⟨fun hin => ?_,hpred⟩
          rcases List.mem_cons.mp hin with rfl | hin
          · exact hp rfl
          · exact hmem hin

-- linking c behind the end q lengthens exactly the chains through q
theorem Chain.link {heap' : List α} {q c : ℕ} {e : α} (h : Chain next heap start l)
    (hq : ∀ a, heap[q]? = some a → next a = none)
    (hkeep : ∀ (p : ℕ) (a : α), p ≠ q → heap[p]? = some a →
      ∃ b, heap'[p]? = some b ∧ next b = next a)
    (hlink : ∃ b, heap'[q]? = some b ∧ next b = some c)
    (hc : heap'[c]? = some e) (hend : next e = none) :
    Chain next heap' start (if q ∈ l then l ++ [c] else l) := by
  induction h with
  | nil => exact .nil
  | @cons p a l ha hl ih =>
    by_cases hpq : p = q
    · subst hpq
      obtain ⟨b,hb,hnext⟩ := hlink
      rw [hq a ha] at hl
      cases hl
      have hlast : Chain next heap' (next b) [c] := by
        rw [hnext]
        exact .cons hc (hend ▸ .nil)
      simpa using Chain.cons hb hlast
    · obtain ⟨b,hb,hnext⟩ := hkeep p a hpq ha
      have hrest := Chain.cons hb (hnext ▸ ih)
      by_cases hmem : q ∈ l
      · simpa [hmem] using hrest
      · simpa [hmem,Ne.symm hpq] using hrest

-- a chain that ends at q goes on from there
theorem Chain.isPrefix {heap' : List α} {q : ℕ} {m : List ℕ} (h : Chain next heap start l)
    (hm : Chain next heap' start m) (hq : ∀ a, heap[q]? = some a → next a = none)
    (hkeep : ∀ (p : ℕ) (a : α), p ≠ q → heap[p]? = some a →
      ∃ b, heap'[p]? = some b ∧ next b = next a) : l <+: m := by
  induction h generalizing m with
  | nil => exact List.nil_prefix
  | @cons p a l ha hl ih =>
    cases hm with
    | @cons _ b m hb hm =>
      refine List.cons_prefix_cons.mpr ⟨rfl,?_⟩
      by_cases hpq : p = q
      · subst hpq
        rw [hq a ha] at hl
        cases hl
        exact List.nil_prefix
      · obtain ⟨b',hb',hnext⟩ := hkeep p a hpq ha
        rw [hb] at hb'
        cases hb'
        exact ih (hnext ▸ hm)

-- linking the end back to a cell of the chain leaves no finite chain
theorem Chain.link_cycle {heap' : List α} {q c : ℕ} (h : Chain next heap start l) (hmem : q ∈ l)
    (hq : ∀ a, heap[q]? = some a → next a = none)
    (hkeep : ∀ (p : ℕ) (a : α), p ≠ q → heap[p]? = some a →
      ∃ b, heap'[p]? = some b ∧ next b = next a)
    (hlink : ∃ b, heap'[q]? = some b ∧ next b = some c) (hc : c ∈ l) (m : List ℕ) :
    ¬ Chain next heap' start m := by
  intro hm
  obtain ⟨rest,rfl⟩ := h.isPrefix hm hq hkeep
  obtain ⟨a,ha⟩ := h.get hmem
  obtain ⟨b,hb,hnext⟩ := hlink
  obtain ⟨pre,post,rfl⟩ := List.append_of_mem hmem
  have hend := h.next_eq ha
  rw [hq a ha,eq_comm,List.head?_eq_none_iff] at hend
  subst hend
  have hnodup := hm.nodup
  rw [List.append_assoc,List.singleton_append] at hm
  have hcycle := hm.next_eq hb
  rw [hnext] at hcycle
  exact (List.nodup_append.mp hnodup).2.2 c hc c (List.mem_of_mem_head? hcycle.symm) rfl

theorem Chain.last {p : ℕ} (h : Chain next heap (some p) l) :
    ∃ q a, heap[q]? = some a ∧ next a = none ∧ q ∈ l := by
  generalize hstart : some p = start at h
  induction h generalizing p with
  | nil => cases hstart
  | @cons r a l ha hl ih =>
    cases hnext : next a with
    | none => exact ⟨r,a,ha,hnext,List.mem_cons_self⟩
    | some r' =>
      obtain ⟨q,b,hb,hend,hmem⟩ := ih hnext.symm
      exact ⟨q,b,hb,hend,List.mem_cons_of_mem _ hmem⟩

section Fold

variable {β : Type} (next) (heap) (f : β → α → β)

-- while (p) { visit; p = p->next; }
def foldChain : ℕ → Option ℕ → β → Option β
  | _,none,b => some b
  | 0,some _,_ => none
  | fuel + 1,some p,b =>
    match heap[p]? with
    | none => none
    | some a => foldChain fuel (next a) (f b a)

variable {next heap}

theorem Chain.foldChain (h : Chain next heap start l) {fuel : ℕ} (hfuel : l.length ≤ fuel) (b : β) :
    foldChain next heap f fuel start b = some ((l.filterMap (heap[·]?)).foldl f b) := by
  induction h generalizing fuel b with
  | nil => cases fuel <;> rfl
  | @cons p a l ha _ ih =>
    obtain ⟨fuel,rfl⟩ := Nat.exists_eq_succ_of_ne_zero (Nat.ne_of_gt
      (Nat.zero_lt_of_lt (Nat.lt_of_lt_of_le (Nat.lt_succ_self l.length) hfuel)))
    have hsome : (fun p : ℕ => heap[p]?) p = some a := ha
    rw [LinkedList.foldChain,ha,List.filterMap_cons_some hsome,List.foldl_cons]
    exact ih (Nat.le_of_succ_le_succ hfuel) (f b a)

theorem Chain.filterMap_length (h : Chain next heap start l) :
    (l.filterMap (heap[·]?)).length = l.length := by
  induction h with
  | nil => rfl
  | @cons p a l ha _ ih =>
    have hsome : (fun p : ℕ => heap[p]?) p = some a := ha
    rw [List.filterMap_cons_some hsome,List.length_cons,List.length_cons,ih]

end Fold

end LinkedList
