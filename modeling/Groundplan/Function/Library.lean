import Groundplan.Function.Collection
import Groundplan.Function.Conversion
import Groundplan.Function.Encoding
import Groundplan.Function.Numeric
import Groundplan.Function.Text
/-!
The functions that are available to every expression, by name.
-/

namespace Groundplan.Function

def library : List (String × Function) :=
  [("upper", upper), ("lower", lower), ("title", title), ("trimspace", trimSpace), ("trim", trim),
    ("trimprefix", trimPrefix), ("trimsuffix", trimSuffix), ("replace", replace),
    ("substr", substring), ("startswith", startsWith), ("endswith", endsWith),
    ("strcontains", stringContains), ("format", format), ("join", join), ("split", split),
    ("length", length), ("concat", concat), ("flatten", flatten), ("distinct", distinct),
    ("contains", contains), ("keys", keys), ("values", values), ("lookup", lookup),
    ("merge", merge), ("element", element), ("slice", slice), ("reverse", reverse),
    ("sort", sort), ("coalesce", coalesce), ("compact", compact), ("zipmap", zipMap),
    ("toset", toSet), ("tolist", toList), ("tomap", toMap), ("tostring", toText),
    ("tonumber", toNumber), ("tobool", toBool), ("min", least), ("max", greatest),
    ("abs", absolute), ("ceil", ceiling), ("floor", floor), ("jsonencode", jsonEncode),
    ("base64encode", base64Encode), ("base64decode", base64Decode), ("md5", md5),
    ("sha256", sha256), ("sha512", sha512)]

def named? (name : String) : Option Function := library.lookup name

end Groundplan.Function
