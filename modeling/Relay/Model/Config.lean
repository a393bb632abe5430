import Relay.Library.Json
import Relay.Library.Uuid

/-!
# Settings, clock and what other packages provide

* `Time`: microseconds since the Unix epoch, in UTC, with `isoformat`;
* `Settings`: the deployment's values of `config/settings.py`;
* `Env`: the settings together with the functions of other packages that the code calls, as
  parameters: the SHA-256 digest, Fernet, the URL parser of httpx and the Unicode database.
-/

namespace Relay

/-- A moment: microseconds since the Unix epoch. -/
abbrev Time := ℤ

/-- `timedelta(seconds=n)`. -/
def seconds (n : ℤ) : Time := n * 1000000

/-- `timedelta(minutes=n)`. -/
def minutes (n : ℤ) : Time := seconds (60 * n)

/-- `timedelta(days=n)`. -/
def days (n : ℤ) : Time := minutes (1440 * n)

namespace Time

/-- The civil date (year, month, day) of a day number counted from 1970-01-01. -/
def civil (day : ℤ) : ℤ × ℤ × ℤ :=
  let z := day + 719468
  let era := z / 146097
  let doe := z % 146097
  let yoe := (doe - doe / 1460 + doe / 36524 - doe / 146096) / 365
  let doy := doe - (365 * yoe + yoe / 4 - yoe / 100)
  let mp := (5 * doy + 2) / 153
  let month := if mp < 10 then mp + 3 else mp - 9
  (yoe + era * 400 + if month ≤ 2 then 1 else 0, month, doy - (153 * mp + 2) / 5 + 1)

/-- The last `width` decimal digits of `n`. -/
def decimals : ℕ → ℕ → List Char
  | 0, _ => []
  | width + 1, n => decimals width (n / 10) ++ [Char.ofNat (48 + n % 10)]

/-- The day a moment falls on. -/
def day (t : Time) : ℤ := t / days 1

/-- `date.isoformat()`. -/
def isoDate (day : ℤ) : String :=
  let (y, m, d) := civil day
  String.ofList (decimals 4 y.toNat ++ '-' :: decimals 2 m.toNat ++ '-' :: decimals 2 d.toNat)

/-- `datetime.isoformat()` of an aware datetime in UTC. -/
def isoformat (t : Time) : String :=
  let us := (t % days 1).toNat
  let s := us / 1000000
  let clock := 'T' :: decimals 2 (s / 3600) ++ ':' :: decimals 2 (s / 60 % 60) ++
    ':' :: decimals 2 (s % 60)
  let fraction := if us % 1000000 = 0 then [] else '.' :: decimals 6 (us % 1000000)
  isoDate (day t) ++ String.ofList (clock ++ fraction) ++ "+00:00"

example : isoformat (days 20000 + seconds 3661 + 7) = "2024-10-04T01:01:01.000007+00:00" := by
  decide

end Time

/-- The values of `config/settings.py` that the modelled code reads. -/
structure Settings where
  tokenEncryptionKey : String
  metaAppId : String
  metaAppSecret : String
  metaRedirectUri : String
  metaGraphVersion : String
  relayPublicApiUrl : String
  relayMediaPublicBaseUrl : String
  b2EndpointUrl : String
  b2Region : String
  b2Bucket : String
  b2ApplicationKeyId : String
  b2ApplicationKey : String
  relayPublicationMaxAttempts : ℤ

/-- What `Fernet.encrypt` takes from outside: `os.urandom(16)` and the seconds of `time.time()`. -/
structure FernetDraw where
  iv : BitVec 128
  time : ℤ

/-- `cryptography.fernet`: which keys `Fernet` accepts, what it encrypts to, and what it reads
back; `none` stands for `InvalidToken` or for plaintext that is not UTF-8. -/
structure FernetModule where
  accepts : (encryptionKey : String) → Bool
  encrypt : (encryptionKey : String) → FernetDraw → (plaintext : String) → String
  decrypt : (encryptionKey ciphertext : String) → Option String

/-- A deployment: its settings and the packages it calls. -/
structure Env extends Settings where
  /-- `hashlib.sha256(text.encode("utf-8")).hexdigest()` -/
  sha256 : String → String
  fernet : FernetModule
  /-- httpx builds a request for the URL instead of raising `InvalidURL`. -/
  urlAccepted : String → Bool
  /-- `str.isprintable` of one character -/
  printable : Char → Bool
  /-- `str.isalnum` of one character -/
  alphanumeric : Char → Bool

/-- PostgreSQL stores the text in a `varchar(n)` column: no NUL, at most `n` characters. -/
def fitsVarchar (n : ℕ) (s : String) : Bool := s.length ≤ n && !s.toList.contains '\x00'

/-- `text.rstrip("/")`. -/
def rstripSlash (s : String) : String :=
  String.ofList (s.toList.reverse.dropWhile (· = '/')).reverse

end Relay
