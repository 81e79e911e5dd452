import Plctagt.Tag.StringTag
import Plctagt.Tag.Types

/-! # The example programs

`readTestNumeric`, `writeTestNumeric`, `readTestString` and `writeTestString` of `examples.cpp`. The
text next to the status is what a function prints.
-/
namespace Plctagt.Tag
open Effects Decimal
set_option autoImplicit false

/-- The arguments of an example, less its values. -/
structure Example where
  gateway : Text
  path : Text
  cpu : Text
  protocol : Text
  tagname : Text
  count : ℤ

namespace Example

def tagstring (x : Example) : Text :=
  buildTagstring x.gateway x.tagname x.count x.path x.cpu x.protocol

/-- `std::cout << es << std::endl`. -/
def printed (es : Text) : Text := es ++ text "\n"

def readTestNumeric (t : ElemType) (values : List t.Val) (x : Example) :
    Program (ℤ × Text × List t.Val) := do
  let (tag, es) ← createTag [] x.tagstring dataTimeout
  if tag < 0 then pure (tag, printed es, values)
  else do
    let (rc, es, values) ← readNumericTag t es tag values dataTimeout
    if rc < 0 then pure (rc, printed es, values) else pure (0, [], values)

def writeTestNumeric (t : ElemType) (values : List t.Val) (x : Example) : Program (ℤ × Text) := do
  let (tag, es) ← createTag [] x.tagstring dataTimeout
  if tag < 0 then pure (tag, printed es)
  else do
    let (rc, es) ← writeNumericTag t es tag values dataTimeout
    if rc < 0 then pure (rc, printed es) else pure (0, [])

def readTestString (turns : ℕ) (values : List Text) (x : Example) :
    Program (ℤ × Text × List Text) := do
  let (tag, es) ← createTag [] x.tagstring dataTimeout
  if tag < 0 then pure (tag, printed es, values)
  else do
    let (rc, es, values) ← readStringTag turns es tag values dataTimeout
    if rc < 0 then pure (rc, printed es, values) else pure (0, [], values)

def writeTestString (values : List Text) (x : Example) : Program (ℤ × Text) := do
  let (tag, es) ← createTag [] x.tagstring dataTimeout
  if tag < 0 then pure (tag, printed es)
  else do
    let (rc, es) ← writeStringTag es tag values dataTimeout
    if rc < 0 then pure (rc, printed es) else pure (0, [])

end Example

end Plctagt.Tag
