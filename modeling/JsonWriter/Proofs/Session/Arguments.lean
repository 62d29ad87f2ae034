import JsonWriter.Session.Call

/-! What a collection of strings is refused for, whatever the session, and what it holds if it is not
refused. -/
namespace JsonWriter

namespace Value

end Value

namespace Write

section Checks

variable {α β γ : Type} {f : α → Except Fault β} {fault? : α → Option Fault} {view : α → γ}
  {form : β → γ}

variable {f : Value → Except Fault β} {fault? : Value → Option Fault} {view : Value → γ} {v : Value}

end Checks

end Write
end JsonWriter
