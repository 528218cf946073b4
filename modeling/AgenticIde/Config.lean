/-
AgenticIde/Config.lean

Loading the configuration of a server (`CoreConfig::from_map` of `config.rs`): each key that is
set replaces the default of its field, and a value that does not parse degrades to a default
of its own.

Loading never fails, and that is where it is generous: a mask that is no number stands for all
rights, and a single sign-on that is switched on with a word that is not known stays off.  The
secret has no default but the empty text, so single sign-on without a secret is a
configuration like any other (`AuthSecret`).

The map is one from keys to values, wherever it comes from; that of the process has the
variables of the environment.  Only the fields that decide identities and budgets are here.
-/
import AgenticIde.Server

namespace AgenticIde

/-- `parse_bool`: a word for yes or no, or the default. -/
def parseBool (s : String) (default : Bool) : Bool :=
  match Str.toAsciiLowercase (Str.trim s) with
  | "1" | "true" | "yes" | "on" | "y" => true
  | "0" | "false" | "no" | "off" | "n" => false
  | _ => default

namespace CoreConfig

/-- `CoreConfig::default`. -/
def default : CoreConfig where
  tenantId := "single"
  userId := "admin"
  permMask := 63
  ssoEnabled := false
  ssoSecret := ""
  ssoIssuer := ""
  ssoClientId := ""
  questMaxSteps := 8

/-- Build the configuration from a map of keys. -/
def fromMap (map : String → Option String) : CoreConfig where
  tenantId := (map "TENANT_ID").getD default.tenantId
  userId := (map "USER_ID").getD default.userId
  permMask :=
    match map "PERM_MASK" with
    | none => default.permMask
    -- garbage degrades to the full mask
    | some v => ((Str.parseUnsigned UInt32.size (Str.trim v)).map UInt32.ofNat).getD 63
  ssoEnabled :=
    match map "SSO_ENABLED" with
    | none => default.ssoEnabled
    | some v => parseBool v false
  ssoSecret := (map "SSO_SECRET").getD default.ssoSecret
  ssoIssuer := (map "SSO_ISSUER").getD default.ssoIssuer
  ssoClientId := (map "SSO_CLIENT_ID").getD default.ssoClientId
  questMaxSteps :=
    match map "QUEST_MAX_STEPS" with
    | none => default.questMaxSteps
    | some v => (Str.parseUnsigned UInt64.size (Str.trim v)).getD 8

end CoreConfig

end AgenticIde
