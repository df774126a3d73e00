import Groundplan.Digest.Md5
import Groundplan.Digest.Sha2
import Groundplan.Function
import Groundplan.Text.Base64
/-!
Functions that encode data and take digests of texts.
-/

namespace Groundplan.Function

def jsonEncode : Function where
  parameters := [.any]
  further := none
  run := fun arguments => .ok (.string (argument arguments 0).toJson.compact)

private def ofBytes (change : List UInt8 → String) : Function :=
  ofStrings 1 fun texts => .ok (.string (change (texts.headD "").toUTF8.toList))

def base64Encode : Function := ofBytes fun bytes => String.ofList (Text.Base64.encode bytes)

def base64Decode : Function :=
  ofStrings 1 fun texts =>
    match Text.Base64.decode (texts.headD "").toList with
    | none => .error .badBase64
    | some bytes =>
        match String.fromUTF8? ⟨bytes.toArray⟩ with
        | some text => .ok (.string text)
        | none => .error .badEncoding

def md5 : Function := ofBytes Digest.Md5.digest

def sha256 : Function := ofBytes Digest.Sha2.digest256

def sha512 : Function := ofBytes Digest.Sha2.digest512

end Groundplan.Function
