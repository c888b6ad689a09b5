import AwsLc.DtlsFlightDelivery
import AwsLc.DtlsReassemblyRuns
import AwsLc.SslBufferSafety
import AwsLc.SslConfigTransfer
import AwsLc.EarlyData
import AwsLc.Asn1Integer
import AwsLc.Oid
import AwsLc.Utf8
import AwsLc.Base64
import AwsLc.CbbTree
import AwsLc.Asn1Collect
import AwsLc.SslSession
import AwsLc.CipherStrength
import AwsLc.ChainExtensions
import AwsLc.PosixTime
import AwsLc.EvpCipher
import AwsLc.ConstrainedHosts
import AwsLc.VerifyCert
import AwsLc.BioPair
import AwsLc.Stack
import AwsLc.LHash
import AwsLc.KeyWrap
import AwsLc.RsaPss
import AwsLc.EcJacobian
import AwsLc.EcOct
import AwsLc.EcAffineBatch
import AwsLc.EcScalarMul
import AwsLc.Ecdsa
import AwsLc.TlsCbc
import AwsLc.RsaCrypt
import AwsLc.Xts
import AwsLc.CtrDrbg
import AwsLc.SessionCache
import AwsLc.SessionTime
import AwsLc.TicketKeys
import AwsLc.RsaKeyGeneration
import AwsLc.BnEstimates
import AwsLc.BnJacobi
