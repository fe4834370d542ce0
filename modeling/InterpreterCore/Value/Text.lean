import InterpreterCore.Decimal.Layout
import InterpreterCore.Integer.Text
import InterpreterCore.Value.Basic

namespace InterpreterCore

namespace Value

/-- Floating values are written positionally from one ten-thousandth up to ten to the sixteenth
    and with an exponent elsewhere. Whole ones keep a point and a zero, so that they do not read as
    integers. -/
def layout : Decimal.Layout where
  positional := some (-4, 16)
  pointZero := true

/-- How a value is shown. -/
def text (v : Value) : String :=
  match v.datum with
  | .boolean true => "true"
  | .boolean false => "false"
  | .integer n => String.ofList (Integer.write n)
  | .float x => String.ofList (x.write layout)
  | .double x => String.ofList (x.write layout)
  | .string s => s
  | .object o => o.text

end Value

end InterpreterCore
