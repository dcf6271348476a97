/-
Module: LibSiot.ServerSSLContext
Purpose: The certificate chain of class `ServerSSLContext`: `AddChainCertPath`,
  which scans the list before it appends, and `GetChainCertPaths`.
Trusted boundary: human-reviewed model
Main exports: ServerSSLContext, ServerSSLContext.addChainCertPath,
  ServerSSLContext.getChainCertPaths
-/
import LibSiot.Connection

namespace LibSiot

/-- The path of a file: a `std::string`, which need not be text. -/
abbrev Path := Bytes

/-- Fields of class `ServerSSLContext`. -/
structure ServerSSLContext where
  certFile : Path
  keyFile : Path
  chainCerts : List Path
deriving Repr, DecidableEq

namespace ServerSSLContext

/-- The constructor. -/
def new (certFile keyFile : Path) : ServerSSLContext :=
  { certFile := certFile, keyFile := keyFile, chainCerts := [] }

/-- `ServerSSLContext::AddChainCertPath`.  The object it returns is the one it was
called on. -/
def addChainCertPath (context : ServerSSLContext) (certFile : Path) : ServerSSLContext :=
  if context.chainCerts.any (fun path => path == certFile) then context
  else { context with chainCerts := context.chainCerts ++ [certFile] }

/-- `ServerSSLContext::GetChainCertPaths`. -/
def getChainCertPaths (context : ServerSSLContext) : List Path :=
  context.chainCerts

/-- Calls of `AddChainCertPath` with the paths, one after the other. -/
def addChainCertPaths (context : ServerSSLContext) (paths : List Path) : ServerSSLContext :=
  paths.foldl addChainCertPath context

end ServerSSLContext

end LibSiot
