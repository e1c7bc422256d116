import SecureBoot.Container.Certificate
import SecureBoot.Container.Configuration
import SecureBoot.Files
import SecureBoot.Signing.Module

/-!
Signing. A keychain, held in memory or in a file, ends with the key that signs. What is to be signed
is handed to a service as a module; the service's signature becomes the last entry of the keychain,
and the chain goes into the first slot without entries of what was signed.
-/

namespace SecureBoot

/-- A service that signs modules, or refuses to. -/
abbrev SigningService := SigningModule → Except Failure Signature

/-- Where the keychain comes from, and the hash selector of new entries. -/
structure Signer where
  keychain : Option SignatureChain := none
  keychainFile : Option String := none
  selector : HashSelector := .intel
  deriving DecidableEq, Repr

namespace Signer

/-- Accept exactly a signer with one source of its keychain. -/
def validate (signer : Signer) : Except Failure Unit :=
  match signer.keychain, signer.keychainFile with
  | some _, some _ => .error (.invalidField .twoKeychains)
  | none, none => .error (.invalidField .noKeychain)
  | _, _ => .ok ()

/-- The keychain, from memory or from its file. -/
def fetchKeychain (signer : Signer) (disk : Files.Disk) : Except Failure SignatureChain := do
  signer.validate
  match signer.keychain, signer.keychainFile with
  | some chain, _ => return chain
  | none, some path => (Files.load disk path).result (SignatureChain.expecting none)
  | none, none => .error (.invalidField .noKeychain)

/-- The keychain, which has to be valid, to have a root and not to be closed. -/
def openKeychain (signer : Signer) (disk : Files.Disk) : Except Failure SignatureChain := do
  let chain ← signer.fetchKeychain disk
  chain.validate
  require (chain.isTerminated = false) .chainTerminated
  require (chain.rootEntry?.isSome = true) (.invalidChainOrder .keychainWithoutRoot)
  return chain

/-- A signature that is asked for: the keychain it extends and the module it is for. -/
structure Request where
  keychain : SignatureChain
  signingModule : SigningModule
  deriving DecidableEq, Repr

/-- What the service is asked to sign for a configuration. -/
def requestForConfiguration (signer : Signer) (disk : Files.Disk)
    (configuration : Configuration) : Except Failure Request := do
  require ((← configuration.isSignable) = true)
    (.invalidField (.notSigned (← configuration.header.format)))
  let keychain ← signer.openKeychain disk
  return ⟨keychain, ← SigningModule.ofConfiguration configuration.header⟩

/-- What the service is asked to sign for a certificate. -/
def requestForCertificate (signer : Signer) (disk : Files.Disk) (certificate : Certificate) :
    Except Failure Request := do
  let keychain ← signer.openKeychain disk
  return ⟨keychain, ← SigningModule.ofCertificate certificate.header⟩

/-- What the service is asked to sign for a key. -/
def requestForKey (signer : Signer) (disk : Files.Disk) (key : PublicKey) :
    Except Failure Request := do
  let keychain ← signer.openKeychain disk
  return ⟨keychain, ← SigningModule.ofKey key signer.selector⟩

/-- The keychain extended by the entry that carries the service's signature. -/
def complete (signer : Signer) (service : SigningService) (request : Request) :
    Except Failure SignatureChain := do
  let signature ← service request.signingModule
  request.keychain.append (← request.signingModule.signedEntry signature signer.selector)

/-- Sign the header of a configuration, answering the slot of the chain. -/
def signConfiguration (signer : Signer) (disk : Files.Disk) (service : SigningService) :
    Edit Configuration Nat := do
  let chain ← Edit.ask fun configuration => do
    signer.complete service (← signer.requestForConfiguration disk configuration)
  let slot ← Configuration.addChain chain
  Edit.ask Configuration.validate
  return slot

/-- Sign the header of a certificate, answering the slot of the chain. -/
def signCertificate (signer : Signer) (disk : Files.Disk) (service : SigningService) :
    Edit Certificate Nat := do
  let chain ← Edit.ask fun certificate => do
    signer.complete service (← signer.requestForCertificate disk certificate)
  let slot ← Certificate.addChain chain
  Edit.ask Certificate.validate
  return slot

/-- The keychain extended by a signed entry for a key. -/
def signKey (signer : Signer) (disk : Files.Disk) (service : SigningService) (key : PublicKey) :
    Except Failure SignatureChain := do
  let chain ← signer.complete service (← signer.requestForKey disk key)
  chain.validate
  return chain

end Signer
end SecureBoot
