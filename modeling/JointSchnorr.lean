import JointSchnorr.Describe
import JointSchnorr.Proofs.Curve.Decoding
import JointSchnorr.Proofs.Identity
import JointSchnorr.Proofs.Production
import JointSchnorr.Proofs.Recognition
import JointSchnorr.Proofs.Reporting
import JointSchnorr.Proofs.Sampling
import JointSchnorr.Proofs.Separation
import JointSchnorr.Proofs.Sharing.Blame
import JointSchnorr.Proofs.Sharing.Combining
import JointSchnorr.Proofs.Sharing.Completeness
import JointSchnorr.Proofs.Sharing.Feldman
import JointSchnorr.Proofs.Sharing.Interpolation
import JointSchnorr.Proofs.Sharing.Invariant
import JointSchnorr.Proofs.Sharing.Reconstruction
import JointSchnorr.Proofs.Sharing.Secrecy
import JointSchnorr.Proofs.Signing
import JointSchnorr.Proofs.Verification
import JointSchnorr.Proofs.Wallet.SingleUse
