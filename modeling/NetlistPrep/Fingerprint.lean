import NetlistPrep.Json
import NetlistPrep.Sha256

/-!
# Fingerprints

A fingerprint stands for an artifact as it would be written out: a text, lines with their line ends,
or the canonical text of a JSON value.
-/

namespace NetlistPrep

/-- The SHA-256 digest of a written artifact, in hexadecimal digits. -/
structure Fingerprint where
  sha256 : Text
deriving DecidableEq, Repr

namespace Fingerprint

def ofText (t : Text) : Fingerprint := ⟨Sha256.hexDigest (Utf8.encode t)⟩

/-- The fingerprint of lines, each closed by a line feed. -/
def ofLines (lines : List Text) : Fingerprint := ofText (lines.flatMap (· ++ ['\n']))

def ofJson (v : Json) : Fingerprint := ofText v.canonical

/-- The first twelve digits, enough to tell artifacts apart by eye. -/
def short (f : Fingerprint) : Text := f.sha256.take 12

end Fingerprint

end NetlistPrep
