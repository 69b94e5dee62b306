import KluxOS.Kernel.State

namespace KluxOS

section Printf

-- terminal_printf has no va_list: a conversion prints the name of its type
def conversion : Char → CString
  | '%' => ['%']
  | 'd' => "(int)".toList
  | 'i' => "(int)".toList
  | 'u' => "(uint)".toList
  | 'x' => "(hex)".toList
  | 'X' => "(hex)".toList
  | 's' => "(string)".toList
  | 'c' => "(char)".toList
  | other => ['%',other]

def terminalPrintf : CString → CString
  | [] => []
  | [c] => if c ≠ '%' then [c] else []
  | c :: d :: rest =>
    if c ≠ '%' then c :: terminalPrintf (d :: rest) else conversion d ++ terminalPrintf rest

theorem terminalPrintf_plain {c : Char} (hc : c ≠ '%') (rest : CString) :
    terminalPrintf (c :: rest) = c :: terminalPrintf rest := by
  cases rest <;> exact if_pos hc

-- text in which terminal_printf finds no conversion
def escaped (text : CString) : CString := text.flatMap fun c => if c = '%' then ['%','%'] else [c]

theorem terminalPrintf_escaped (text : CString) (format : CString) :
    terminalPrintf (escaped text ++ format) = text ++ terminalPrintf format := by
  induction text with
  | nil => rfl
  | cons c text ih =>
    rw [escaped,List.flatMap_cons,List.append_assoc,← escaped,List.cons_append,← ih]
    by_cases hc : c = '%'
    · subst hc
      rfl
    · rw [if_neg hc]
      exact terminalPrintf_plain hc _

end Printf

end KluxOS
