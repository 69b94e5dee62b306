import KluxOS.Security.Aes
import KluxOS.Security.Fips197
import Mathlib.Tactic.IntervalCases

namespace KluxOS.Aes

open CArray Fips197

theorem sbox_algebraic (x : Uint8) : sbox x = affine (Gf256Bits.inv x) := by
  revert x
  decide +kernel

theorem xtime_eq (x : Uint8) : xtime x = Gf256Bits.xtime x := by
  revert x
  decide +kernel

def ofColumn (v : Vector Uint8 4) : Word := fun k => ⟨v.get k⟩

def ofBlock (b : Block) : State := fun r c => ⟨b.get (cell c r)⟩

theorem cell_surjective (i : Fin 16) : ∃ c r, cell c r = i :=
  ⟨⟨i / 4,by omega⟩,⟨i % 4,by omega⟩,Fin.ext (by simp only [cell]; omega)⟩

theorem ofBlock_injective : Function.Injective ofBlock := by
  intro a b h
  apply ext_get
  intro i
  obtain ⟨c,r,rfl⟩ := cell_surjective i
  exact congrArg Gf256.bits (congrFun (congrFun h r) c)

theorem cell_inj {c c' r r' : Fin 4} : cell c r = cell c' r' ↔ c = c' ∧ r = r' := by
  simp only [cell,Fin.ext_iff]
  omega

theorem get_setColumn (s : Block) (t : Vector Uint8 4) (i c r : Fin 4) :
    (setColumn s i t).get (cell c r) = if c = i then t.get r else s.get (cell c r) := by
  simp only [setColumn,get_set,cell_inj]
  by_cases hc : c = i
  · subst hc
    fin_cases r <;> simp <;> rfl
  · simp [hc]

theorem column_setColumn (s : Block) (t : Vector Uint8 4) (i c : Fin 4) :
    column (setColumn s i t) c = if c = i then t else column s c := by
  by_cases hc : c = i
  · subst hc
    simp only [column,get_setColumn,if_true]
    apply ext_get
    intro k
    fin_cases k <;> rfl
  · simp [column,get_setColumn,hc]

theorem foldl_setColumn (f : Vector Uint8 4 → Vector Uint8 4) (l : List (Fin 4)) (hl : l.Nodup)
    (s : Block) (c : Fin 4) :
    column (l.foldl (fun s i => setColumn s i (f (column s i))) s) c =
      if c ∈ l then f (column s c) else column s c := by
  induction l generalizing s with
  | nil => simp
  | cons i l ih =>
    obtain ⟨hi,hl⟩ := List.nodup_cons.mp hl
    rw [List.foldl_cons,ih hl]
    by_cases hc : c = i
    · subst hc
      simp [hi,column_setColumn]
    · simp [hc,column_setColumn]

theorem column_eachColumn (f : Vector Uint8 4 → Vector Uint8 4) (s : Block) (c : Fin 4) :
    column (eachColumn f s) c = f (column s c) := by
  rw [eachColumn,foldl_setColumn f _ (List.nodup_finRange 4)]
  simp

theorem get_cell (s : Block) (c r : Fin 4) : s.get (cell c r) = (column s c).get r := by
  fin_cases r <;> rfl

theorem ofBlock_column (s : Block) (r c : Fin 4) : ofBlock s r c = ofColumn (column s c) r := by
  rw [ofBlock,get_cell]
  rfl

theorem ofBlock_eachColumn (f : Vector Uint8 4 → Vector Uint8 4) (p : Word)
    (hf : ∀ v, ofColumn (f v) = CyclicColumn.conv p (ofColumn v)) (s : Block) :
    ofBlock (eachColumn f s) = mixColumnsWith p (ofBlock s) := by
  funext r c
  simp only [ofBlock_column,column_eachColumn,hf,mixColumnsWith]

theorem ofColumn_mixColumn (v : Vector Uint8 4) :
    ofColumn (mixColumn v) = CyclicColumn.conv mixPolynomial (ofColumn v) := by
  have h3 : (⟨0x03#8⟩ : Gf256) = ⟨0x02#8⟩ + 1 := rfl
  have h1 : (⟨0x01#8⟩ : Gf256) = 1 := rfl
  rw [CyclicColumn.conv_apply]
  funext r
  fin_cases r <;>
    simp [ofColumn,mixColumn,mixPolynomial,get_eq_getElem,xtime_eq,Gf256.mk_xor,Gf256.mk_xtime,h1,h3] <;>
    ring

theorem ofBlock_mixColumns (s : Block) :
    ofBlock (mixColumns s) = mixColumnsWith mixPolynomial (ofBlock s) :=
  ofBlock_eachColumn _ _ ofColumn_mixColumn s

theorem ofBlock_subBytes (s : Block) : ofBlock (subBytes s) = Fips197.subBytes (ofBlock s) := by
  funext r c
  simp only [ofBlock,subBytes,forEach_get,sbox_algebraic]
  rfl

theorem shiftRows_get (s : Block) (r c : Fin 4) :
    (shiftRows s).get (cell c r) = s.get (cell (c + r) r) := by
  fin_cases r <;> fin_cases c <;> simp [shiftRows,cell,get_eq_getElem]

theorem ofBlock_shiftRows (s : Block) : ofBlock (shiftRows s) = Fips197.shiftRows (ofBlock s) := by
  funext r c
  simp only [ofBlock,shiftRows_get,Fips197.shiftRows]

end KluxOS.Aes
